import GoNav.Proofs.Candidates
import Mathlib.Data.List.Perm.Subperm

namespace GoNav

namespace Members

variable {ws : Workspace}

/-! Ways inward -/

/-- A type embeds another one, which is the right-hand side of a declaration. -/
def Embeds (ws : Workspace) (typ spec inner : FileNode) : Prop :=
  ∃ reference ∈ embedded typ, ws.typeSpecOf reference = some spec ∧
    ∃ n, spec.node.typeExpr = some n ∧ inner = ⟨spec.file, n⟩

/-- The ways inward from a type through the types that are embedded. The declarations on the way are
listed behind those of the path to the type. -/
inductive Inward (ws : Workspace) : FileNode → List FileNode → FileNode → List FileNode → Prop
  | here (typ : FileNode) (path : List FileNode) : Inward ws typ path typ path
  | embed {typ spec inner last : FileNode} {path whole : List FileNode} (embeds : Embeds ws typ spec inner)
      (further : Inward ws inner (path ++ [spec]) last whole) : Inward ws typ path last whole

/-- On no way inward is a declaration entered twice, and no type on the way embeds one with its own
text. -/
structure Acyclic (ws : Workspace) (typ : FileNode) (path : List FileNode) : Prop where
  fresh {last spec inner : FileNode} {whole : List FileNode} (way : Inward ws typ path last whole)
    (embeds : Embeds ws last spec inner) : whole.contains spec = false
  differs {last spec inner : FileNode} {whole : List FileNode} (way : Inward ws typ path last whole)
    (embeds : Embeds ws last spec inner) : last.node.text ≠ inner.node.text

theorem Acyclic.embed {typ spec inner : FileNode} {path : List FileNode} (acyclic : Acyclic ws typ path)
    (embeds : Embeds ws typ spec inner) : Acyclic ws inner (path ++ [spec]) :=
  ⟨fun way => acyclic.fresh (.embed embeds way), fun way => acyclic.differs (.embed embeds way)⟩

theorem kind_of_typeSpecOf {reference spec : FileNode} (found : ws.typeSpecOf reference = some spec) :
    spec.node.kind = .typeSpec := by
  obtain ⟨d, _, isSpec⟩ := Option.bind_eq_some_iff.mp found
  cases d with
  | directory path => cases isSpec
  | node place =>
    simp only [Declaration.typeSpec?] at isSpec
    split at isSpec
    · rename_i kind
      cases isSpec
      exact eq_of_beq kind
    · cases isSpec

/-- The right-hand side of a declaration belongs to it. -/
theorem owner?_of_typeExpr {spec : FileNode} {n : Node} (kind : spec.node.kind = .typeSpec)
    (typed : spec.node.typeExpr = some n) : owner? ⟨spec.file, n⟩ = some spec := by
  have parent : n.parent = some spec.node := Node.parent_of_mem_children (List.mem_of_find?_eq_some typed)
  simp [owner?, parent, kind]

/-! One level -/

/-- What a name stands for by a list of declarations. -/
def firstOf (name : String) (declarations : List Declaration) : Option Declaration :=
  Item.find name (declarations.filterMap Item.ofDeclaration?)

theorem firstOf_append (name : String) (left right : List Declaration) :
    firstOf name (left ++ right) = (firstOf name left).or (firstOf name right) := by
  rw [firstOf, List.filterMap_append, Item.find_append]
  rfl

theorem firstOf_cons (name : String) (d : Declaration) (rest : List Declaration) :
    firstOf name (d :: rest) = if d.name? == some name then some d else firstOf name rest := by
  rw [firstOf, List.filterMap_cons, firstOf]
  cases called : d.name? with
  | none => simp [Item.ofDeclaration?, called]
  | some own =>
    simp only [Item.ofDeclaration?, called, Option.map_some, Item.find, List.findSome?_cons]
    by_cases same : own = name <;> simp [same]

theorem firstOf_flatMap {α : Type} (name : String) (declarations : α → List Declaration) (as : List α) :
    firstOf name (as.flatMap declarations) = as.findSome? fun a => firstOf name (declarations a) := by
  induction as with
  | nil => rfl
  | cons a rest ih =>
    rw [List.flatMap_cons, firstOf_append, ih, List.findSome?_cons]
    cases firstOf name (declarations a) <;> rfl

theorem named_eq_firstOf (name : String) (nodes : List FileNode) :
    named name nodes = firstOf name (nodes.map .node) := by
  induction nodes with
  | nil => rfl
  | cons place rest ih =>
    rw [List.map_cons, firstOf_cons, ← ih]
    simp only [named, List.find?_cons, Declaration.name?]
    split <;> simp_all

theorem findSome?_congr {α β : Type} {f g : α → Option β} {as : List α} (same : ∀ a ∈ as, f a = g a) :
    as.findSome? f = as.findSome? g := by
  induction as with
  | nil => rfl
  | cons a rest ih =>
    rw [List.findSome?_cons, List.findSome?_cons, same a (List.mem_cons_self ..),
      ih fun b member => same b (List.mem_cons_of_mem a member)]

/-- Searching a type for a name finds the first of its members with that name, however deep both go. -/
theorem search_eq_firstOf {typ : FileNode} {path : List FileNode} (acyclic : Acyclic ws typ path)
    (name : String) (depth : Nat) :
    search ws ws.typeSpecOf name depth typ =
      firstOf name (collectIn ws ws.typeSpecOf depth (owner? typ) typ path) := by
  induction depth generalizing typ path with
  | zero => rfl
  | succ depth ih =>
    have methods : (owner? typ).bind (fun spec => named name (methodsOf ws spec)) =
        firstOf name (((owner? typ).toList.flatMap (methodsOf ws)).map .node) := by
      cases owner? typ with
      | none => rfl
      | some spec => simp [named_eq_firstOf]
    rw [search_add_one, collectIn_add_one, methods]
    simp only [firstOf_append, firstOf_flatMap, Option.or_assoc, named_eq_firstOf, List.map_map]
    congr 2
    refine findSome?_congr fun reference member => ?_
    cases meant : ws.typeSpecOf reference with
    | none => rfl
    | some spec =>
      cases typed : spec.node.typeExpr with
      | none =>
        simp only [Option.bind_some, typed, Option.bind_none]
        split <;> rfl
      | some n =>
        have embeds : Embeds ws typ spec ⟨spec.file, n⟩ := ⟨reference, member, meant, n, typed, rfl⟩
        have fresh := acyclic.fresh (.here typ path) embeds
        have differs := acyclic.differs (.here typ path) embeds
        simp only [Option.bind_some, typed, fresh, if_neg differs]
        rw [ih (acyclic.embed embeds), owner?_of_typeExpr (kind_of_typeSpecOf meant) typed]
        rfl

/-! The depth of a search -/

/-- Declarations of types of a workspace, none of them twice. -/
structure Listed (ws : Workspace) (path : List FileNode) : Prop where
  distinct : path.Nodup
  member {spec : FileNode} (among : spec ∈ path) : spec ∈ ws.nodes.filter (·.node.kind == .typeSpec)

theorem Listed.length_lt {path : List FileNode} (listed : Listed ws path) :
    path.length + 1 < ws.memberDepth := by
  have fewer := (listed.distinct.subperm fun _ => listed.member).length_le
  rw [Workspace.memberDepth]
  omega

theorem mem_specs {spec : FileNode} (held : ws.Holds spec) (kind : spec.node.kind = .typeSpec) :
    spec ∈ ws.nodes.filter (·.node.kind == .typeSpec) :=
  List.mem_filter.mpr ⟨Workspace.mem_nodes held, by simp [kind]⟩

theorem Listed.append {path : List FileNode} {spec : FileNode} (listed : Listed ws path)
    (fresh : path.contains spec = false) (held : ws.Holds spec) (kind : spec.node.kind = .typeSpec) :
    Listed ws (path ++ [spec]) := by
  constructor
  · refine listed.distinct.append (List.nodup_singleton spec) ?_
    intro other among last
    rw [List.mem_singleton.mp last] at among
    have same : (spec == spec) = true :=
      Bool.and_eq_true_iff.mpr ⟨beq_self_eq_true _, beq_self_eq_true spec.node.path⟩
    rw [List.contains_eq_any_beq, List.any_eq_false] at fresh
    exact fresh spec among same
  · intro other among
    rcases List.mem_append.mp among with old | last
    · exact listed.member old
    · rw [List.mem_singleton.mp last]
      exact mem_specs held kind

theorem staysIn_typeSpecOf (ws : Workspace) : StaysIn ws ws.typeSpecOf :=
  (Reference.faithful_resolveWithin ws ws.referenceDepth).staysIn

/-- The ways inward from a type, or from what it points to, are free of cycles, and so are those from the
type that it names, which has another text. -/
structure FreeOfCycles (ws : Workspace) (typ : FileNode) : Prop where
  own {target : FileNode} (pointed : pointee? typ = some target) : Acyclic ws target (owner? target).toList
  named {target reference spec : FileNode} {n : Node} (pointed : pointee? typ = some target)
    (refers : reference? target = some reference) (meant : ws.typeSpecOf reference = some spec)
    (typed : spec.node.typeExpr = some n) :
    target.node.text ≠ n.text ∧ Acyclic ws ⟨spec.file, n⟩ [spec]

theorem fieldDecls_of_kind {typ : FileNode} (other : typ.node.kind ≠ .structType) :
    fieldDecls typ = [] := by
  simp [fieldDecls, other]

theorem acyclic_of_kind {typ : FileNode} (other : typ.node.kind ≠ .structType) (path : List FileNode) :
    Acyclic ws typ path := by
  have none {spec inner : FileNode} : ¬ Embeds ws typ spec inner := by
    rintro ⟨reference, member, _⟩
    simp [embedded, fieldDecls_of_kind other] at member
  constructor
  · intro last spec inner whole way embeds
    cases way with
    | here => exact absurd embeds none
    | embed first => exact absurd first none
  · intro last spec inner whole way embeds
    cases way with
    | here => exact absurd embeds none
    | embed first => exact absurd first none

theorem collectIn_eq_nil {typ : FileNode} (noStruct : typ.node.kind ≠ .structType)
    (noInterface : typ.node.kind ≠ .interfaceType) (depth : Nat) (path : List FileNode) :
    collectIn ws ws.typeSpecOf depth none typ path = [] := by
  cases depth with
  | zero => rfl
  | succ depth =>
    simp [collectIn_add_one, ownFields, embedded, methodSpecs, fieldDecls_of_kind noStruct, noInterface]

theorem pointee?_of_ne {typ : FileNode} (plain : typ.node.kind ≠ .pointerType) : pointee? typ = some typ :=
  if_neg (by simpa using plain)

theorem listed_singleton {spec : FileNode} (held : ws.Holds spec) (kind : spec.node.kind = .typeSpec) :
    Listed ws [spec] := by
  refine ⟨List.nodup_singleton spec, fun among => ?_⟩
  rw [List.mem_singleton.mp among]
  exact mem_specs held kind

theorem listed_owner? {typ : FileNode} (held : ws.Holds typ) : Listed ws (owner? typ).toList := by
  cases owned : owner? typ with
  | none => exact ⟨List.nodup_nil, nofun⟩
  | some spec =>
    obtain ⟨p, above, rfl⟩ := Option.map_eq_some_iff.mp owned
    obtain ⟨parent, kind⟩ := Option.filter_eq_some_iff.mp above
    exact listed_singleton (held.near (.parent parent)) (eq_of_beq kind)

/-- The declaration that a reference to a type names, with its right-hand side. -/
def entered? (ws : Workspace) (reference : FileNode) : Option (FileNode × Node) :=
  (ws.typeSpecOf reference).bind fun spec => spec.node.typeExpr.map (spec, ·)

theorem entered?_eq {reference spec : FileNode} {n : Node} (meant : ws.typeSpecOf reference = some spec)
    (typed : spec.node.typeExpr = some n) : entered? ws reference = some (spec, n) := by
  simp [entered?, meant, typed]

/-- Whether no way inward from a type, which must not go deeper than `depth`, runs into a guard. -/
def acyclicWithin (ws : Workspace) : Nat → FileNode → List FileNode → Bool
  | 0, _, _ => false
  | depth + 1, typ, path =>
    (embedded typ).all fun reference =>
      (entered? ws reference).all fun (spec, n) =>
        !path.contains spec && typ.node.text != n.text &&
          acyclicWithin ws depth ⟨spec.file, n⟩ (path ++ [spec])

theorem acyclic_of_acyclicWithin {depth : Nat} {typ : FileNode} {path : List FileNode}
    (checked : acyclicWithin ws depth typ path = true) : Acyclic ws typ path := by
  have step {depth : Nat} {typ spec inner : FileNode} {path : List FileNode}
      (checked : acyclicWithin ws depth typ path = true) (embeds : Embeds ws typ spec inner) :
      path.contains spec = false ∧ typ.node.text ≠ inner.node.text ∧
        acyclicWithin ws (depth - 1) inner (path ++ [spec]) = true := by
    obtain ⟨reference, member, meant, n, typed, rfl⟩ := embeds
    cases depth with
    | zero => cases checked
    | succ depth =>
      have here := List.all_eq_true.mp checked reference member
      simpa [entered?_eq meant typed, and_assoc] using here
  have along {last : FileNode} {whole : List FileNode} (way : Inward ws typ path last whole) :
      ∃ depth, acyclicWithin ws depth last whole = true := by
    induction way generalizing depth with
    | here => exact ⟨depth, checked⟩
    | embed embeds _ ih => exact ih (step checked embeds).2.2
  constructor
  · intro last spec inner whole way embeds
    obtain ⟨_, checked⟩ := along way
    exact (step checked embeds).1
  · intro last spec inner whole way embeds
    obtain ⟨_, checked⟩ := along way
    exact (step checked embeds).2.1

end Members

namespace Workspace

theorem holds_of_mem_nodes {ws : Workspace} {place : FileNode} (member : place ∈ ws.nodes) :
    ws.Holds place := by
  obtain ⟨⟨id, f⟩, among, inside⟩ := List.mem_flatMap.mp member
  obtain ⟨n, below, rfl⟩ := List.mem_map.mp inside
  exact ⟨f, file?_of_mem_files among, below⟩

end Workspace

end GoNav
