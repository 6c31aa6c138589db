import GoNav.Proofs.MemberSearch

namespace GoNav

namespace Members

variable {ws : Workspace} {name : String} {d : Declaration} {typ inner last : FileNode}

/-! What belongs to a type itself -/

/-- The fields that a struct type declares itself, embedded ones included. -/
def fields (typ : FileNode) : List Declaration :=
  (ownFields typ).map fun n => .node ⟨typ.file, n⟩

/-- The methods that an interface type lists, and those that are declared on a type. -/
def methods (ws : Workspace) (typ : FileNode) : List Declaration :=
  (methodSpecs typ).map (fun n => .node ⟨typ.file, n⟩) ++
    ((owner? typ).toList.flatMap (methodsOf ws)).map .node

/-- Whether a name is among those of some declarations. -/
def declares (name : String) (declarations : List Declaration) : Bool :=
  declarations.any (·.name? == some name)

theorem firstOf_eq_some {declarations : List Declaration} (found : firstOf name declarations = some d) :
    d ∈ declarations ∧ d.name? = some name := by
  induction declarations with
  | nil => cases found
  | cons first rest ih =>
    rw [firstOf_cons] at found
    split at found
    · rename_i called
      cases found
      exact ⟨List.mem_cons_self .., eq_of_beq called⟩
    · exact ⟨List.mem_cons_of_mem _ (ih found).1, (ih found).2⟩

theorem firstOf_eq_none {declarations : List Declaration} :
    firstOf name declarations = none ↔ declares name declarations = false := by
  induction declarations with
  | nil => simp [firstOf, Item.find, declares]
  | cons first rest ih =>
    rw [firstOf_cons, declares, List.any_cons, ← declares]
    split <;> simp_all

/-! The types below a type -/

/-- The type that is searched next where a type embeds another one. That is not done if both have the same
text. -/
def enter? (ws : Workspace) (typ reference : FileNode) : Option FileNode :=
  (entered? ws reference).bind fun (spec, n) =>
    if typ.node.text = n.text then none else some ⟨spec.file, n⟩

theorem enter?_eq_some {reference : FileNode} (entered : enter? ws typ reference = some inner) :
    ∃ spec n, ws.typeSpecOf reference = some spec ∧ spec.node.typeExpr = some n ∧
      inner = ⟨spec.file, n⟩ := by
  obtain ⟨⟨spec, n⟩, meant, differs⟩ := Option.bind_eq_some_iff.mp entered
  obtain ⟨_, resolved, typed⟩ := Option.bind_eq_some_iff.mp meant
  obtain ⟨_, expr, same⟩ := Option.map_eq_some_iff.mp typed
  cases same
  exact ⟨spec, n, resolved, expr, (Option.some.inj (Option.ite_none_left_eq_some.mp differs).2).symm⟩

/-- The types at an embedding depth below a type. -/
def typesAt (ws : Workspace) : Nat → FileNode → List FileNode
  | 0, typ => [typ]
  | depth + 1, typ => (embedded typ).flatMap fun reference =>
    (enter? ws typ reference).toList.flatMap (typesAt ws depth)

theorem mem_typesAt_succ {depth : Nat} {t : FileNode} :
    t ∈ typesAt ws (depth + 1) typ ↔
      ∃ reference ∈ embedded typ, ∃ inner, enter? ws typ reference = some inner ∧ t ∈ typesAt ws depth inner := by
  simp [typesAt]

/-- No type that is reached by way of an embedded one has a member of a name. -/
def Lacks (ws : Workspace) (name : String) (typ reference : FileNode) : Prop :=
  ∀ inner, enter? ws typ reference = some inner → ∀ depth, ∀ t ∈ typesAt ws depth inner,
    declares name (fields t) = false ∧ declares name (methods ws t) = false

/-- A way down through embedded types. Each step names a type and what it embeds before the type that
comes next. -/
inductive Way (ws : Workspace) : FileNode → List (FileNode × List FileNode) → FileNode → Prop
  | here (typ : FileNode) : Way ws typ [] typ
  | embed {typ reference inner last : FileNode} {before after : List FileNode}
      {steps : List (FileNode × List FileNode)} (splits : embedded typ = before ++ reference :: after)
      (entered : enter? ws typ reference = some inner) (further : Way ws inner steps last) :
      Way ws typ ((typ, before) :: steps) last

theorem Way.mem_typesAt {steps : List (FileNode × List FileNode)} (way : Way ws typ steps last) :
    last ∈ typesAt ws steps.length typ := by
  induction way with
  | here => exact List.mem_singleton_self _
  | embed splits entered _ ih =>
    exact mem_typesAt_succ.mpr ⟨_, by simp [splits], _, entered, ih⟩

/-! One level of a search -/

/-- At each type a search looks at the fields, then below, and then at the methods. -/
theorem search_succ (ws : Workspace) (name : String) (depth : Nat) (typ : FileNode) :
    search ws ws.typeSpecOf name (depth + 1) typ =
      (firstOf name (fields typ)).or
        (((embedded typ).findSome? fun reference =>
            (enter? ws typ reference).bind (search ws ws.typeSpecOf name depth)).or
          (firstOf name (methods ws typ))) := by
  have declared : (owner? typ).bind (fun spec => named name (methodsOf ws spec)) =
      firstOf name (((owner? typ).toList.flatMap (methodsOf ws)).map .node) := by
    cases owner? typ with
    | none => rfl
    | some spec => simp [named_eq_firstOf]
  have below (reference : FileNode) :
      ((ws.typeSpecOf reference).bind fun spec => spec.node.typeExpr.bind fun inner =>
        if typ.node.text = inner.text then none
        else search ws ws.typeSpecOf name depth ⟨spec.file, inner⟩) =
        (enter? ws typ reference).bind (search ws ws.typeSpecOf name depth) := by
    simp only [enter?, entered?]
    cases ws.typeSpecOf reference with
    | none => rfl
    | some spec =>
      cases typed : spec.node.typeExpr with
      | none => simp [typed]
      | some n =>
        simp only [Option.bind_some, typed, Option.map_some]
        split <;> rfl
  rw [search_add_one, declared]
  simp only [below, named_eq_firstOf, List.map_map]
  rw [methods, firstOf_append]
  rfl

/-- Where nothing is found, no type that was reached has a member of the name. -/
theorem declares_of_search_eq_none {depth k : Nat} {t : FileNode}
    (nothing : search ws ws.typeSpecOf name depth typ = none) (within : k < depth)
    (reached : t ∈ typesAt ws k typ) :
    declares name (fields t) = false ∧ declares name (methods ws t) = false := by
  induction k generalizing depth typ with
  | zero =>
    obtain ⟨depth, rfl⟩ : ∃ n, depth = n + 1 := ⟨depth - 1, by omega⟩
    cases List.mem_singleton.mp reached
    rw [search_succ, Option.or_eq_none_iff, Option.or_eq_none_iff] at nothing
    exact ⟨firstOf_eq_none.mp nothing.1, firstOf_eq_none.mp nothing.2.2⟩
  | succ k ih =>
    obtain ⟨depth, rfl⟩ : ∃ n, depth = n + 1 := ⟨depth - 1, by omega⟩
    obtain ⟨reference, member, inner, entered, reached⟩ := mem_typesAt_succ.mp reached
    rw [search_succ, Option.or_eq_none_iff, Option.or_eq_none_iff] at nothing
    have below := List.findSome?_eq_none_iff.mp nothing.2.1 reference member
    rw [entered] at below
    exact ih below (by omega) reached

/-- How the member of a name is found: at the end of a way down, on which no type has a field of that name
and nothing embedded before the way has such a member. A method is found only where the name belongs to no
field and to nothing below. -/
structure Selected (ws : Workspace) (name : String) (typ : FileNode) (d : Declaration)
    (steps : List (FileNode × List FileNode)) (last : FileNode) : Prop where
  way : Way ws typ steps last
  called : d.name? = some name
  above : ∀ step ∈ steps, declares name (fields step.1) = false
  before : ∀ step ∈ steps, ∀ reference ∈ step.2, Lacks ws name step.1 reference
  belongs : d ∈ fields last ∨ d ∈ methods ws last ∧ declares name (fields last) = false ∧
    ∀ reference ∈ embedded last, Lacks ws name last reference

theorem Selected.embed {reference : FileNode} {prior after : List FileNode}
    {steps : List (FileNode × List FileNode)} (selected : Selected ws name inner d steps last)
    (splits : embedded typ = prior ++ reference :: after) (entered : enter? ws typ reference = some inner)
    (unfielded : declares name (fields typ) = false) (lacking : ∀ earlier ∈ prior, Lacks ws name typ earlier) :
    Selected ws name typ d ((typ, prior) :: steps) last where
  way := .embed splits entered selected.way
  called := selected.called
  above := List.forall_mem_cons.mpr ⟨unfielded, selected.above⟩
  before := List.forall_mem_cons.mpr ⟨lacking, selected.before⟩
  belongs := selected.belongs

/-- A search that is not cut short finds the member of a name where it is to be found. -/
theorem exists_selected_of_search {depth : Nat} (found : search ws ws.typeSpecOf name depth typ = some d)
    (bounded : ∀ k, ∀ t ∈ typesAt ws k typ, k < depth) :
    ∃ steps last, Selected ws name typ d steps last := by
  induction depth generalizing typ with
  | zero => cases found
  | succ depth ih =>
    have inside {reference inner : FileNode} (member : reference ∈ embedded typ)
        (entered : enter? ws typ reference = some inner) (k : Nat) (t : FileNode)
        (reached : t ∈ typesAt ws k inner) : k < depth :=
      Nat.lt_of_succ_lt_succ (bounded (k + 1) t (mem_typesAt_succ.mpr ⟨reference, member, inner, entered, reached⟩))
    have lacks {reference : FileNode} (member : reference ∈ embedded typ)
        (nothing : (enter? ws typ reference).bind (search ws ws.typeSpecOf name depth) = none) :
        Lacks ws name typ reference := by
      intro inner entered k t reached
      rw [entered] at nothing
      exact declares_of_search_eq_none nothing (inside member entered k t reached) reached
    rw [search_succ, Option.or_eq_some_iff] at found
    rcases found with field | ⟨noField, found⟩
    · obtain ⟨member, called⟩ := firstOf_eq_some field
      exact ⟨[], typ, .here typ, called, List.forall_mem_nil _, List.forall_mem_nil _, .inl member⟩
    · rw [firstOf_eq_none] at noField
      rcases Option.or_eq_some_iff.mp found with promoted | ⟨nothing, method⟩
      · obtain ⟨prior, reference, after, splits, promoted, earlier⟩ :=
          List.findSome?_eq_some_iff.mp promoted
        obtain ⟨inner, entered, promoted⟩ := Option.bind_eq_some_iff.mp promoted
        obtain ⟨steps, last, selected⟩ := ih promoted (inside (by simp [splits]) entered)
        exact ⟨_, last, selected.embed splits entered noField
          fun other among => lacks (by simp [splits, among]) (earlier other among)⟩
      · obtain ⟨member, called⟩ := firstOf_eq_some method
        refine ⟨[], typ, .here typ, called, List.forall_mem_nil _, List.forall_mem_nil _,
          .inr ⟨member, noField, fun reference among => ?_⟩⟩
        exact lacks among (List.findSome?_eq_none_iff.mp nothing reference among)

/-! The bound on the depth -/

/-- On no way inward is a declaration entered twice. -/
def NeverTwice (ws : Workspace) (typ : FileNode) (path : List FileNode) : Prop :=
  ∀ {last spec inner : FileNode} {whole : List FileNode}, Inward ws typ path last whole →
    Embeds ws last spec inner → whole.contains spec = false

theorem lt_memberDepth_of_mem_typesAt {path : List FileNode} {depth : Nat} {t : FileNode}
    (held : ws.Holds typ) (acyclic : NeverTwice ws typ path) (listed : Listed ws path)
    (reached : t ∈ typesAt ws depth typ) : path.length + depth + 1 < ws.memberDepth := by
  induction depth generalizing typ path with
  | zero => exact listed.length_lt
  | succ depth ih =>
    obtain ⟨reference, member, inner, entered, reached⟩ := mem_typesAt_succ.mp reached
    obtain ⟨spec, n, meant, typed, rfl⟩ := enter?_eq_some entered
    have embeds : Embeds ws typ spec ⟨spec.file, n⟩ := ⟨reference, member, meant, n, typed, rfl⟩
    have specHeld := staysIn_typeSpecOf ws reference spec (embedded_holds held member) meant
    have longer := listed.append (acyclic (.here typ path) embeds) specHeld (kind_of_typeSpecOf meant)
    have bound := ih (specHeld.near (.childWhere typed)) (fun way => acyclic (.embed embeds way)) longer reached
    rw [List.length_append, List.length_singleton] at bound
    omega

/-! The type itself and what names it -/

/-- A type that stands for the right-hand side of a declaration: that side itself, or a name of the
declaration, or a pointer to such a name. -/
def Denotes (ws : Workspace) (typ spec : FileNode) (n : Node) : Prop :=
  typ = ⟨spec.file, n⟩ ∨
    (owner? typ = none ∧ ∃ target reference, pointee? typ = some target ∧
      reference? target = some reference ∧ ws.typeSpecOf reference = some spec)

theorem kind_of_reference? {target reference : FileNode} (refers : reference? target = some reference) :
    target.node.kind = .typeName := by
  obtain ⟨m, found, _⟩ := Option.map_eq_some_iff.mp refers
  rw [Node.typeReference] at found
  split at found
  · rename_i kind
    exact eq_of_beq kind
  · cases found

theorem search_eq_none {depth : Nat} (noStruct : typ.node.kind ≠ .structType)
    (noInterface : typ.node.kind ≠ .interfaceType) (unowned : owner? typ = none) :
    search ws ws.typeSpecOf name depth typ = none := by
  rw [search_eq_firstOf (acyclic_of_kind noStruct []), unowned, collectIn_eq_nil noStruct noInterface]
  rfl

/-- What is found by way of a type is found in the struct that it stands for. -/
theorem search_of_member? {spec : FileNode} {n : Node} (typed : spec.node.typeExpr = some n)
    (isStruct : n.kind = .structType) (denotes : Denotes ws typ spec n)
    (found : ws.member? typ name = some d) :
    search ws ws.typeSpecOf name ws.memberDepth ⟨spec.file, n⟩ = some d := by
  rw [Workspace.member?, find_eq] at found
  rcases denotes with rfl | ⟨unowned, target, reference, pointed, refers, meant⟩
  · have plain : pointee? ⟨spec.file, n⟩ = some ⟨spec.file, n⟩ := pointee?_of_ne (by simp [isStruct])
    have unnamed : reference? ⟨spec.file, n⟩ = none := by simp [reference?, Node.typeReference, isStruct]
    simpa [plain, unnamed] using found
  · have named := kind_of_reference? refers
    have kind : typ.node.kind = .pointerType ∨ typ.node.kind = .typeName := by
      by_cases pointer : typ.node.kind = .pointerType
      · exact .inl pointer
      · rw [pointee?_of_ne pointer] at pointed
        cases pointed
        exact .inr named
    rw [search_eq_none (by rcases kind with k | k <;> simp [k]) (by rcases kind with k | k <;> simp [k])
      unowned, Option.none_or, pointed, Option.bind_some, refers, Option.bind_some, meant,
      Option.bind_some, typed, Option.bind_some] at found
    exact (Option.ite_none_left_eq_some.mp found).2

end Members

namespace Workspace

variable {ws : Workspace}

/-- A member of a struct, or of what names it, is found depth first. It belongs to a type at the end of a
way down through embedded types; no type above it has a field of that name, and no type that is reached by
way of something embedded before has a member of that name at all. A method is found only where its type
has no such field and no type below has such a member. So a field that the struct declares itself comes
before all that is embedded. Nothing is found in the struct only if no type below it has such a member. -/
theorem member?_depth_first {typ spec : FileNode} {n : Node} (name : String)
    (held : ws.Holds spec) (kind : spec.node.kind = .typeSpec) (typed : spec.node.typeExpr = some n)
    (isStruct : n.kind = .structType) (acyclic : Members.NeverTwice ws ⟨spec.file, n⟩ [spec])
    (denotes : Members.Denotes ws typ spec n) :
    (∀ d, ws.member? typ name = some d →
      (∃ steps last, Members.Selected ws name ⟨spec.file, n⟩ d steps last ∧
        last ∈ Members.typesAt ws steps.length ⟨spec.file, n⟩) ∧
        (Members.declares name (Members.fields ⟨spec.file, n⟩) = true →
          d ∈ Members.fields ⟨spec.file, n⟩)) ∧
      (ws.member? ⟨spec.file, n⟩ name = none → ∀ depth, ∀ t ∈ Members.typesAt ws depth ⟨spec.file, n⟩,
        Members.declares name (Members.fields t) = false ∧
          Members.declares name (Members.methods ws t) = false) := by
  have bounded (depth : Nat) (t : FileNode) (reached : t ∈ Members.typesAt ws depth ⟨spec.file, n⟩) :
      depth < ws.memberDepth := by
    have bound := Members.lt_memberDepth_of_mem_typesAt (held.near (.childWhere typed)) acyclic
      (Members.listed_singleton held kind) reached
    omega
  constructor
  · intro d found
    obtain ⟨steps, last, selected⟩ :=
      Members.exists_selected_of_search (Members.search_of_member? typed isStruct denotes found) bounded
    refine ⟨⟨steps, last, selected, selected.way.mem_typesAt⟩, fun own => ?_⟩
    cases selected.way with
    | here =>
      rcases selected.belongs with field | ⟨_, noField, _⟩
      · exact field
      · rw [noField] at own
        cases own
    | embed =>
      rw [selected.above _ (List.mem_cons_self ..)] at own
      cases own
  · intro nothing depth t reached
    rw [member?, Members.find_eq, Option.or_eq_none_iff] at nothing
    exact Members.declares_of_search_eq_none nothing.1 (bounded depth t reached) reached

/-- A struct that embeds two others, the first of which embeds a third. -/
def promoting : Workspace :=
  (({} : Workspace).setText ⟨"/p/a.go"⟩
    ("package p\nvar v *T\ntype T struct\x7bA;B\x7d\ntype A struct\x7bC\x7d\ntype B struct\x7bx int\x7d\n" ++
      "type C struct\x7bx,M int\x7d\nfunc(T)M()\x7b\x7d\n")).2

/-- What is found need not be what is least deep: here a field two types down comes before a field one type
down, and before a method of the struct itself. -/
theorem member?_not_shallowest :
    ∃ spec n, promoting.nodes.find? (·.node.kind == .typeSpec) = some spec ∧
      spec.node.typeExpr = some n ∧ n.kind = .structType ∧
      Members.NeverTwice promoting ⟨spec.file, n⟩ [spec] ∧
      (∃ d, promoting.member? ⟨spec.file, n⟩ "x" = some d ∧
        (∃ t ∈ Members.typesAt promoting 2 ⟨spec.file, n⟩, (Members.fields t).contains d = true) ∧
        ∃ t ∈ Members.typesAt promoting 1 ⟨spec.file, n⟩, Members.declares "x" (Members.fields t) = true) ∧
      ∃ d, promoting.member? ⟨spec.file, n⟩ "M" = some d ∧
        (∃ t ∈ Members.typesAt promoting 2 ⟨spec.file, n⟩, (Members.fields t).contains d = true) ∧
        Members.declares "M" (Members.methods promoting ⟨spec.file, n⟩) = true := by
  have facts : ((promoting.nodes.find? (·.node.kind == .typeSpec)).any fun spec =>
      spec.node.typeExpr.any fun n => n.kind == .structType &&
        Members.acyclicWithin promoting promoting.memberDepth ⟨spec.file, n⟩ [spec] &&
        ((promoting.member? ⟨spec.file, n⟩ "x").any fun d =>
          ((Members.typesAt promoting 2 ⟨spec.file, n⟩).any fun t => (Members.fields t).contains d) &&
          (Members.typesAt promoting 1 ⟨spec.file, n⟩).any fun t => Members.declares "x" (Members.fields t)) &&
        (promoting.member? ⟨spec.file, n⟩ "M").any fun d =>
          ((Members.typesAt promoting 2 ⟨spec.file, n⟩).any fun t => (Members.fields t).contains d) &&
          Members.declares "M" (Members.methods promoting ⟨spec.file, n⟩)) = true := by
    decide +kernel
  simp only [Option.any_eq_true, List.any_eq_true, Bool.and_eq_true, beq_iff_eq] at facts
  obtain ⟨spec, first, n, typed, ⟨⟨isStruct, acyclic⟩, field⟩, method⟩ := facts
  exact ⟨spec, n, first, typed, isStruct, (Members.acyclic_of_acyclicWithin acyclic).fresh, field, method⟩

theorem member?_depth_first_promoting :
    ∃ typ spec n d, promoting.nodes.find? (·.node.kind == .pointerType) = some typ ∧
      Members.Denotes promoting typ spec n ∧ Members.NeverTwice promoting ⟨spec.file, n⟩ [spec] ∧
      promoting.member? typ "x" = some d ∧
      ∃ steps last, Members.Selected promoting "x" ⟨spec.file, n⟩ d steps last ∧
        last ∈ Members.typesAt promoting steps.length ⟨spec.file, n⟩ := by
  have facts : ((promoting.nodes.find? (·.node.kind == .pointerType)).any fun typ =>
      (Members.owner? typ).isNone && (promoting.member? typ "x").isSome &&
        (Members.pointee? typ).any fun target => (Members.reference? target).any fun reference =>
          (promoting.typeSpecOf reference).any fun spec => spec.node.typeExpr.any fun n =>
            n.kind == .structType &&
              Members.acyclicWithin promoting promoting.memberDepth ⟨spec.file, n⟩ [spec]) = true := by
    decide +kernel
  simp only [Option.any_eq_true, Bool.and_eq_true, beq_iff_eq, Option.isNone_iff_eq_none,
    Option.isSome_iff_exists] at facts
  obtain ⟨typ, first, ⟨unowned, d, found⟩, target, pointed, reference, refers, spec, meant, n, typed,
    isStruct, acyclic⟩ := facts
  have held := holds_of_mem_nodes (List.mem_of_find?_eq_some first)
  obtain ⟨m, refers', rfl⟩ := Option.map_eq_some_iff.mp refers
  have specHeld := Members.staysIn_typeSpecOf promoting _ spec
    ((Members.pointee?_holds held pointed).near (.typeReference refers')) meant
  have denotes : Members.Denotes promoting typ spec n :=
    .inr ⟨unowned, target, _, pointed, refers, meant⟩
  have fresh : Members.NeverTwice promoting ⟨spec.file, n⟩ [spec] :=
    (Members.acyclic_of_acyclicWithin acyclic).fresh
  exact ⟨typ, spec, n, d, first, denotes, fresh, found,
    ((member?_depth_first "x" specHeld (Members.kind_of_typeSpecOf meant) typed isStruct fresh denotes).1
      d found).1⟩

end Workspace

end GoNav
