import GoNav.Node.Parts
import GoNav.Proofs.Grammar.Children
import GoNav.Proofs.Grammar.Shape
import GoNav.Proofs.Node.Near

namespace GoNav

/-- What is looked for among the children of a node. -/
inductive Part where
  | ident
  | typ
  /-- A named type, or a pointer to one. -/
  | named
  | child (kind : Kind)
  deriving DecidableEq

/-- Whether a tree is a node of a kind that satisfies `p`. -/
def Tree.isNode (p : Kind → Bool) : Tree → Bool
  | .token .. => false
  | .node kind _ => p kind

/-- Whether a tree is a token of a kind. -/
def Tree.isToken (kind : Kind) : Tree → Bool
  | .token own _ => own == kind
  | .node .. => false

/-- Whether the trees hold one type only, and that is a named one. -/
def Tree.holdName (trees : List Tree) : Bool :=
  trees.countP (isNode Kind.isTypeExpr) == 1 && trees.any (isNode (· == .typeName))

namespace Part

def isAt : Part → Tree → Bool
  | .ident => Tree.isToken .ident
  | .typ => Tree.isNode Kind.isTypeExpr
  | .named => fun t =>
    t.isNode (· == .typeName) || t.isNode (· == .pointerType) && Tree.holdName t.children
  | .child kind => Tree.isNode (· == kind)

/-- The parts that some node must have or must not have. -/
def all : List Part :=
  [.ident, .typ, .named, .child .typeName, .child .fieldDef, .child .anonFieldDef, .child .parameters,
   .child .signature, .child .receiver, .child .varDef, .child .constDef, .child .importString,
   .child .typeReference, .child .packageClause]

end Part

/-- What the children of a node must be. -/
inductive Needs where
  | nothing
  | has (part : Part)
  | lacks (part : Part)
  | once (part : Part)
  | both (first second : Needs)
  | either (first second : Needs)

def Needs.met (trees : List Tree) : Needs → Bool
  | .nothing => true
  | .has part => trees.any part.isAt
  | .lacks part => !trees.any part.isAt
  | .once part => trees.countP part.isAt == 1
  | .both first second => first.met trees && second.met trees
  | .either first second => first.met trees || second.met trees

/-- What the children of a node must be by its kind, apart from fields, which stand in field declarations
only. -/
def Kind.ownNeeds : Kind → Needs
  | .sourceFile => .has (.child .packageClause)
  | .packageClause | .varDef | .constDef | .paramDef | .fieldDef | .referenceExpr | .typeReference =>
    .has .ident
  | .typeSpec => .both (.has .ident) (.has .typ)
  | .varSpec => .has (.child .varDef)
  | .constSpec => .has (.child .constDef)
  | .functionDecl | .methodSpec => .both (.has .ident) (.has (.child .signature))
  | .methodDecl => .both (.has .ident) (.both (.has (.child .signature)) (.has (.child .receiver)))
  | .paramDecl | .receiver | .compositeLit => .has .typ
  | .signature => .has (.child .parameters)
  | .result =>
    .either (.both (.has (.child .parameters)) (.lacks .typ))
      (.both (.lacks (.child .parameters)) (.has .typ))
  | .importSpec => .has (.child .importString)
  | .typeName => .has (.child .typeReference)
  | .anonFieldDef => .both (.once .typ) (.has .named)
  | .fieldDecl =>
    .either (.both (.has (.child .fieldDef)) (.both (.has .typ) (.lacks (.child .anonFieldDef))))
      (.both (.once (.child .anonFieldDef)) (.both (.lacks (.child .fieldDef)) (.lacks .typ)))
  | _ => .nothing

def Kind.needs (kind : Kind) : Needs :=
  if kind == .fieldDecl then kind.ownNeeds else .both (.lacks (.child .fieldDef)) kind.ownNeeds

/-- A node with the children that it must have. -/
def Complete (kind : Kind) (children : List Tree) : Prop :=
  kind.needs.met children = true

namespace Grammar

/-- How many there are of something: at least `least`, and at most `most` if that is known. -/
structure Amount where
  least : Nat
  most : Option Nat
  deriving DecidableEq

namespace Amount

def zero : Amount := ⟨0, some 0⟩
def one : Amount := ⟨1, some 1⟩
def maybe : Amount := ⟨0, some 1⟩
def any : Amount := ⟨0, none⟩

/-- Only whether there is none, one or more of a thing is kept. -/
def add (a b : Amount) : Amount where
  least := min 1 (a.least + b.least)
  most := a.most.bind fun m => b.most.bind fun n => if m + n ≤ 1 then some (m + n) else none

def join (a b : Amount) : Amount where
  least := min a.least b.least
  most := a.most.bind fun m => b.most.map (max m)

def Admits (a : Amount) (n : Nat) : Prop :=
  a.least ≤ n ∧ ∀ m ∈ a.most, n ≤ m

theorem admits_any (n : Nat) : any.Admits n :=
  ⟨Nat.zero_le n, nofun⟩

theorem admits_zero : zero.Admits 0 :=
  ⟨Nat.le_refl 0, fun _ _ => Nat.zero_le _⟩

theorem admits_one : one.Admits 1 :=
  ⟨Nat.le_refl 1, fun _ most => Nat.le_of_eq (Option.mem_some.mp most)⟩

theorem admits_maybe {n : Nat} (few : n ≤ 1) : maybe.Admits n :=
  ⟨Nat.zero_le n, fun _ most => Option.mem_some.mp most ▸ few⟩

theorem admits_toNat (there : Bool) : (if there then one else zero).Admits there.toNat := by
  cases there
  · exact admits_zero
  · exact admits_one

theorem Admits.add {a b : Amount} {m n : Nat} (left : a.Admits m) (right : b.Admits n) :
    (a.add b).Admits (m + n) := by
  refine ⟨?_, fun bound known => ?_⟩
  · have := left.1
    have := right.1
    simp only [Amount.add]
    omega
  · obtain ⟨first, most, known⟩ := Option.bind_eq_some_iff.mp known
    obtain ⟨second, most', known⟩ := Option.bind_eq_some_iff.mp known
    split at known
    · cases known
      exact Nat.add_le_add (left.2 first most) (right.2 second most')
    · cases known

theorem Admits.join {a b : Amount} {n : Nat} (either : a.Admits n ∨ b.Admits n) : (a.join b).Admits n := by
  refine ⟨?_, fun bound known => ?_⟩
  · have := either.imp (·.1) (·.1)
    simp only [Amount.join]
    omega
  · obtain ⟨first, most, known⟩ := Option.bind_eq_some_iff.mp known
    obtain ⟨second, most', rfl⟩ := Option.map_eq_some_iff.mp known
    rcases either with left | right
    · exact Nat.le_trans (left.2 first most) (Nat.le_max_left ..)
    · exact Nat.le_trans (right.2 second most') (Nat.le_max_right ..)

end Amount

/-- How many parts of each sort there are. -/
abbrev Tally := List (Part × Amount)

namespace Tally

def of (amount : Part → Amount) : Tally :=
  Part.all.map fun part => (part, amount part)

/-- One of each of some parts, and nothing else. -/
def ones (parts : List Part) : Tally :=
  of fun part => if parts.contains part then .one else .zero

def zip (combine : Amount → Amount → Amount) : Tally → Tally → Tally
  | (part, a) :: rest, (part', b) :: rest' =>
    if part == part' then (part, combine a b) :: zip combine rest rest' else []
  | _, _ => []

/-- The amount of a part that is known. -/
def get (t : Tally) (part : Part) : Amount :=
  (t.lookup part).getD .any

/-- The amounts are right. -/
def Counts (t : Tally) (trees : List Tree) : Prop :=
  ∀ entry ∈ t, entry.2.Admits (trees.countP entry.1.isAt)

theorem counts_of {amount : Part → Amount} {trees : List Tree}
    (right : ∀ part, (amount part).Admits (trees.countP part.isAt)) : (of amount).Counts trees := by
  intro entry member
  obtain ⟨part, _, rfl⟩ := List.mem_map.mp member
  exact right part

theorem counts_nil : (ones []).Counts [] :=
  counts_of fun _ => Amount.admits_zero

theorem exists_of_mem_zip {combine : Amount → Amount → Amount} {t t' : Tally} {part : Part} {amount : Amount}
    (member : (part, amount) ∈ zip combine t t') :
    ∃ a b, (part, a) ∈ t ∧ (part, b) ∈ t' ∧ amount = combine a b := by
  induction t, t' using zip.induct with
  | case1 own a rest other b rest' same ih =>
    rw [zip, if_pos same] at member
    rcases List.mem_cons.mp member with here | later
    · cases here
      exact ⟨a, b, List.mem_cons_self .., beq_iff_eq.mp same ▸ List.mem_cons_self .., rfl⟩
    · obtain ⟨a', b', left, right, equal⟩ := ih later
      exact ⟨a', b', List.mem_cons_of_mem _ left, List.mem_cons_of_mem _ right, equal⟩
  | case2 own a rest other b rest' different =>
    rw [zip, if_neg different] at member
    cases member
  | case3 t t' short =>
    rw [zip] at member
    · cases member
    · exact short

theorem Counts.add {t t' : Tally} {left right : List Tree} (before : t.Counts left) (behind : t'.Counts right) :
    (zip .add t t').Counts (left ++ right) := by
  intro entry member
  obtain ⟨a, b, first, second, equal⟩ := exists_of_mem_zip member
  rw [equal, List.countP_append]
  exact (before _ first).add (behind _ second)

theorem Counts.join {t t' : Tally} {trees : List Tree} (either : t.Counts trees ∨ t'.Counts trees) :
    (zip .join t t').Counts trees := by
  intro entry member
  obtain ⟨a, b, first, second, equal⟩ := exists_of_mem_zip member
  rw [equal]
  exact .join (either.imp (· _ first) (· _ second))

theorem Counts.get {t : Tally} {trees : List Tree} (counts : t.Counts trees) (part : Part) :
    (t.get part).Admits (trees.countP part.isAt) := by
  unfold Tally.get
  cases found : t.lookup part with
  | none => exact Amount.admits_any _
  | some amount =>
    obtain ⟨before, behind, rfl, _⟩ := List.lookup_eq_some_iff.mp found
    exact counts _ (List.mem_append_right before (List.mem_cons_self ..))

theorem Counts.pos {t : Tally} {trees : List Tree} {part : Part} (counts : t.Counts trees)
    (least : 1 ≤ (t.get part).least) : trees.any part.isAt = true := by
  have some := List.countP_pos_iff.mp (Nat.lt_of_lt_of_le least (counts.get part).1)
  exact List.any_eq_true.mpr some

theorem Counts.eq_one {t : Tally} {trees : List Tree} {part : Part} (counts : t.Counts trees)
    (one : t.get part = .one) : trees.countP part.isAt = 1 := by
  have admits := counts.get part
  rw [one] at admits
  exact Nat.le_antisymm (admits.2 1 rfl) admits.1

end Tally

/-- Whether the parts that are there meet what is needed. -/
def ensures (t : Tally) : Needs → Bool
  | .nothing => true
  | .has part => 1 ≤ (t.get part).least
  | .lacks part => (t.get part).most == some 0
  | .once part => t.get part == .one
  | .both first second => ensures t first && ensures t second
  | .either first second => ensures t first || ensures t second

theorem met_of_ensures {t : Tally} {trees : List Tree} (counts : t.Counts trees) {needs : Needs}
    (ensured : ensures t needs = true) : needs.met trees = true := by
  induction needs with
  | nothing => rfl
  | has part => exact counts.pos (of_decide_eq_true ensured)
  | lacks part =>
    have none := (counts.get part).2 0 (beq_iff_eq.mp ensured)
    rw [Nat.le_zero, List.countP_eq_zero] at none
    simpa [Needs.met] using none
  | once part => exact beq_iff_eq.mpr (counts.eq_one (beq_iff_eq.mp ensured))
  | both first second ihFirst ihSecond =>
    obtain ⟨left, right⟩ := Bool.and_eq_true_iff.mp ensured
    exact Bool.and_eq_true_iff.mpr ⟨ihFirst left, ihSecond right⟩
  | either first second ihFirst ihSecond =>
    exact Bool.or_eq_true_iff.mpr ((Bool.or_eq_true_iff.mp ensured).imp ihFirst ihSecond)

/-- What a token is counted for. -/
def identAmount : Option Place → Amount
  | some (some kinds) =>
    if kinds.all (· == .ident) then .one else if kinds.contains .ident then .maybe else .zero
  | _ => .maybe

/-- What a node is counted for, by its kind and its own children. -/
def nodeAmount (kind : Kind) (inside : Tally) : Part → Amount
  | .ident => .zero
  | .typ => if kind.isTypeExpr then .one else .zero
  | .named =>
    if kind == .typeName then .one
    else if kind == .pointerType then
      if inside.get .typ == .one && 1 ≤ (inside.get (.child .typeName)).least then .one else .maybe
    else .zero
  | .child own => if kind == own then .one else .zero

/-- The account of the parts among the children of each node. -/
def tally : Sketch Tally where
  lenient := false
  nothing _ := .ones []
  bump first d := some (.zip .add d (.of fun part => if part == .ident then identAmount first else .zero))
  node kind d := if ensures d kind.needs then some (.of (nodeAmount kind d)) else none
  append d d' := some (.zip .add d d')
  join d d' := some (.zip .join d d')
  start _ := .ones []
  adds
    | .typ => .of fun part =>
      if part == .typ then .one
      else if part == .named || part == .child .typeName then .maybe
      else .zero
    | .typeName => .ones [.typ, .named, .child .typeName]
    | .structType | .interfaceType => .ones [.typ]
    | .typeReference => .ones [.child .typeReference]
    | .signature => .ones [.child .signature]
    | .parameters => .ones [.child .parameters]
    | .receiver => .ones [.child .receiver]
    | .packageClause => .ones [.child .packageClause]
    | .typeParameters | .block | .literalValue => .ones []
    | .sourceFile => .of fun part =>
      if part == .child .packageClause then ⟨1, none⟩ else if part == .child .fieldDef then .zero else .any
    | _ => .of fun part => if part == .child .fieldDef then .zero else .any

theorem countP_singleton (p : Tree → Bool) (t : Tree) : [t].countP p = (p t).toNat := by
  cases there : p t <;> simp [there]

/-- A token is an identifier or no part at all. -/
theorem isAt_leaf (part : Part) (t : Token) :
    part.isAt (State.leaf t) = (part == .ident && t.kind == .ident) := by
  cases part <;> rfl

theorem admits_identAmount {first : Option Place} {kind : Kind}
    (known : ∀ place ∈ first, place.admits kind = true) :
    (identAmount first).Admits (kind == .ident).toNat := by
  unfold identAmount
  split
  · rename_i kinds
    have member : kind ∈ kinds := List.contains_iff_mem.mp (known _ rfl)
    split
    · rename_i all
      rw [List.all_eq_true.mp all kind member]
      exact Amount.admits_one
    · split
      · exact Amount.admits_maybe (Bool.toNat_le _)
      · rename_i without
        have other : (kind == .ident) = false := beq_eq_false_iff_ne.mpr fun same =>
          without (List.contains_iff_mem.mpr (same ▸ member))
        rw [other]
        exact Amount.admits_zero
  · exact Amount.admits_maybe (Bool.toNat_le _)

theorem admits_nodeAmount {kind : Kind} {inside : Tally} {children : List Tree}
    (counts : inside.Counts children) (part : Part) :
    (nodeAmount kind inside part).Admits ([Tree.node kind children].countP part.isAt) := by
  rw [countP_singleton]
  cases part with
  | ident => exact Amount.admits_zero
  | typ => exact Amount.admits_toNat _
  | child own => exact Amount.admits_toNat _
  | named =>
    show Amount.Admits _ (kind == .typeName || kind == .pointerType && Tree.holdName children).toNat
    rw [nodeAmount]
    split
    · rename_i name
      rw [name]
      exact Amount.admits_one
    · rename_i name
      rw [Bool.eq_false_iff.mpr name, Bool.false_or]
      split
      · rename_i pointer
        rw [pointer, Bool.true_and]
        split
        · rename_i inner
          obtain ⟨once, some⟩ := Bool.and_eq_true_iff.mp inner
          have holds : Tree.holdName children = true :=
            Bool.and_eq_true_iff.mpr ⟨beq_iff_eq.mpr (counts.eq_one (beq_iff_eq.mp once)),
              counts.pos (of_decide_eq_true some)⟩
          rw [holds]
          exact Amount.admits_one
        · exact Amount.admits_maybe (Bool.toNat_le _)
      · rename_i pointer
        rw [Bool.eq_false_iff.mpr pointer]
        exact Amount.admits_zero

theorem tally_sound : tally.Sound fun t trees => Tree.ShapedAll Complete trees ∧ t.Counts trees where
  nothing _ := ⟨trivial, Tally.counts_nil⟩
  start _ := ⟨trivial, Tally.counts_nil⟩
  blank {d trees t} described trivia := by
    refine ⟨shapedAll_append described.1 (shapedAll_leaves [t]), fun entry member => ?_⟩
    have other : (t.kind == .ident) = false := by
      cases kind : t.kind <;> first | rfl | rw [kind] at trivia; cases trivia
    rw [List.countP_append, countP_singleton, isAt_leaf, other, Bool.and_false]
    exact described.2 entry member
  bump {d d' trees t first} described known next := by
    cases next
    refine ⟨shapedAll_append described.1 (shapedAll_leaves [t]), described.2.add (Tally.counts_of fun part => ?_)⟩
    rw [countP_singleton, isAt_leaf]
    split
    · rename_i ident
      rw [ident, Bool.true_and]
      exact admits_identAmount known
    · rename_i other
      rw [Bool.eq_false_iff.mpr other, Bool.false_and]
      exact Amount.admits_zero
  atEnd {d d' trees} described next := by
    cases next
    have none : (Tally.of fun part => if part == .ident then identAmount none else .zero).Counts [] := by
      refine Tally.counts_of fun part => ?_
      split
      · exact Amount.admits_maybe (Nat.zero_le 1)
      · exact Amount.admits_zero
    have counts := described.2.add none
    rw [List.append_nil] at counts
    exact ⟨described.1, counts⟩
  node {d d' trees kind} described next := by
    simp only [tally] at next
    split at next
    · rename_i ensured
      cases next
      exact ⟨⟨⟨met_of_ensures described.2 ensured, described.1⟩, trivial⟩,
        Tally.counts_of (admits_nodeAmount described.2)⟩
    · cases next
  append {d d' d'' left right} before behind next := by
    cases next
    exact ⟨shapedAll_append before.1 behind.1, before.2.add behind.2⟩
  join {d d' d'' trees} joined described := by
    cases joined
    exact ⟨described.elim (·.1) (·.1), .join (described.imp (·.2) (·.2))⟩

theorem tally_passes (rule : Rule) : tally.account.passes rule = true :=
  Account.passes_all (by decide +kernel) (fun _ => ⟨rfl, rfl⟩) rule

end Grammar

namespace Node

/-! What the trees of a node say of its parts -/

theorem any_trees (n : Node) (p : Tree → Bool) : n.trees.any p = n.elements.any (p ∘ Element.tree) := by
  rw [← map_tree_elements, List.any_map]

@[simp]
theorem isSome_token (n : Node) (kind : Kind) : (n.token kind).isSome = n.trees.any (Tree.isToken kind) := by
  rw [any_trees, token, List.isSome_find?, tokens, List.any_filterMap]
  congr 1
  funext e
  cases e <;> rfl

/-- A tree among those of a node that is no token is that of a child. -/
theorem exists_child_of_any (n : Node) {p : Tree → Bool} (onToken : ∀ kind text, p (.token kind text) = false)
    (found : n.trees.any p = true) : ∃ c ∈ n.children, p (.node c.kind c.trees) = true := by
  rw [any_trees] at found
  obtain ⟨e, among, isOne⟩ := List.any_eq_true.mp found
  cases e with
  | node c => exact ⟨c, mem_children.mpr among, isOne⟩
  | leaf l => exact absurd isOne (Bool.eq_false_iff.mp (onToken l.kind l.text))

theorem any_children (n : Node) (p : Kind → Bool) :
    n.children.any (p ·.kind) = n.trees.any (Tree.isNode p) := by
  rw [any_trees, children, List.any_filterMap]
  congr 1
  funext e
  cases e <;> rfl

@[simp]
theorem isSome_childWhere (n : Node) (p : Kind → Bool) :
    (n.childWhere p).isSome = n.trees.any (Tree.isNode p) := by
  rw [childWhere, List.isSome_find?, any_children]

@[simp]
theorem isNone_childWhere (n : Node) (p : Kind → Bool) :
    (n.childWhere p).isNone = !n.trees.any (Tree.isNode p) := by
  rw [← Option.not_isSome, isSome_childWhere]

@[simp]
theorem length_childrenWhere (n : Node) (p : Kind → Bool) :
    (n.childrenWhere p).length = n.trees.countP (Tree.isNode p) := by
  rw [childrenWhere, ← List.countP_eq_length_filter, children, List.countP_filterMap, ← map_tree_elements n,
    List.countP_map]
  congr 1
  funext e
  cases e <;> rfl

@[simp]
theorem isEmpty_childrenWhere (n : Node) (p : Kind → Bool) :
    (n.childrenWhere p).isEmpty = !n.trees.any (Tree.isNode p) := by
  rw [← any_children, Bool.eq_iff_iff]
  simp [childrenWhere]

theorem childWhere_of_once {n c : Node} {p : Kind → Bool} (once : n.trees.countP (Tree.isNode p) = 1)
    (member : c ∈ n.children) (isOne : p c.kind = true) : n.childWhere p = some c := by
  rw [← length_childrenWhere, List.length_eq_one_iff] at once
  obtain ⟨only, alone⟩ := once
  have among : c ∈ n.childrenWhere p := List.mem_filter.mpr ⟨member, isOne⟩
  rw [alone, List.mem_singleton] at among
  rw [childWhere, ← List.head?_filter, ← childrenWhere, alone, among]
  rfl

theorem isTypeExpr_of_named {kind : Kind} {trees : List Tree} (named : Part.named.isAt (.node kind trees) = true) :
    kind.isTypeExpr = true := by
  rcases Bool.or_eq_true_iff.mp named with name | pointer
  · rw [beq_iff_eq.mp name]
    rfl
  · rw [beq_iff_eq.mp (Bool.and_eq_true_iff.mp pointer).1]
    rfl

theorem strip_of_typeName {n : Node} (name : n.kind = .typeName) (depth : Nat) : n.strip depth = n := by
  have inner : n.innerType = none := by rw [innerType, name]
  cases depth with
  | zero => rfl
  | succ depth => rw [strip, inner]

theorem heightOf_pos {kind : Kind} {children trees : List Tree} (member : .node kind children ∈ trees) :
    0 < Tree.heightOf trees := by
  induction trees with
  | nil => cases member
  | cons t rest ih =>
    rw [Tree.heightOf]
    rcases List.mem_cons.mp member with rfl | later
    · exact Nat.lt_of_lt_of_le (Nat.succ_pos _) (Nat.le_max_left ..)
    · exact Nat.lt_of_lt_of_le (ih later) (Nat.le_max_right ..)

theorem stripPointers_of_innerType {n c : Node} (member : c ∈ n.children) (inner : n.innerType = some c) :
    ∃ depth, n.stripPointers = c.strip depth := by
  have tall : 0 < Tree.heightOf n.trees :=
    heightOf_pos (mem_elementsIn (mem_children.mp member)).1
  obtain ⟨depth, height⟩ := Nat.exists_eq_succ_of_ne_zero (Nat.ne_of_gt tall)
  exact ⟨depth, by rw [stripPointers, height, strip, inner]⟩

/-- Whether a node has the parts that are never missing in a file without syntax errors. -/
def hasRequiredParts (n : Node) : Bool :=
  match n.kind with
  | .sourceFile => n.packageName.isSome
  | .typeName => n.typeReference.isSome
  | .fieldDef => n.identifier.isSome && (n.specType .fieldDecl).isSome
  | .fieldDecl =>
    !(n.childrenOf .fieldDef).isEmpty && n.typeExpr.isSome && (n.child .anonFieldDef).isNone ||
      (n.childrenOf .anonFieldDef).length == 1 && (n.child .anonFieldDef).any (·.embeddedName.isSome) &&
        (n.childrenOf .fieldDef).isEmpty && n.typeExpr.isNone
  | .result => (n.child .parameters).isSome != n.typeExpr.isSome
  | .importSpec => (n.child .importString).isSome
  | .typeSpec => n.identifier.isSome && n.typeExpr.isSome
  | .varSpec => !(n.childrenOf .varDef).isEmpty
  | .constSpec => !(n.childrenOf .constDef).isEmpty
  | .varDef | .constDef | .paramDef | .typeReference | .referenceExpr => n.identifier.isSome
  | .functionDecl | .methodSpec => n.identifier.isSome && (n.child .signature).isSome
  | .methodDecl => n.identifier.isSome && (n.child .signature).isSome && (n.child .receiver).isSome
  | .signature => (n.child .parameters).isSome
  | .receiver | .paramDecl | .compositeLit => n.typeExpr.isSome
  | _ => true

section

variable {root : Node} (shaped : (Tree.node root.kind root.trees).Shaped Complete)
include shaped

theorem met_ownNeeds {n : Node} (member : n ∈ root.descendants) : n.kind.ownNeeds.met n.trees = true := by
  have complete := shape_of_mem_descendants shaped member
  rw [Complete, Kind.needs] at complete
  split at complete
  · exact complete
  · exact (Bool.and_eq_true_iff.mp complete).2

theorem kind_of_fieldDef {n : Node} (member : n ∈ root.descendants)
    (field : n.trees.any (Tree.isNode (· == .fieldDef)) = true) : n.kind = .fieldDecl := by
  have complete := shape_of_mem_descendants shaped member
  rw [Complete, Kind.needs] at complete
  split at complete
  · rename_i same
    exact beq_iff_eq.mp same
  · have none := (Bool.and_eq_true_iff.mp complete).1
    simp only [Needs.met, Part.isAt, field] at none
    cases none

theorem isSome_identifier {n : Node} (member : n ∈ root.descendants) (named : n.kind.ownNeeds = .has .ident) :
    n.identifier.isSome = true := by
  have met := met_ownNeeds shaped member
  rw [named] at met
  rw [identifier, isSome_token]
  exact met

theorem exists_child {n : Node} (member : n ∈ root.descendants) {kind : Kind}
    (needed : n.kind.ownNeeds = .has (.child kind)) :
    ∃ c ∈ root.descendants, n.child kind = some c ∧ c.kind = kind := by
  have met := met_ownNeeds shaped member
  have present : (n.child kind).isSome = true := by
    rw [needed] at met
    rw [child, isSome_childWhere]
    exact met
  obtain ⟨c, found⟩ := Option.isSome_iff_exists.mp present
  exact ⟨c, child_mem_descendants member (List.mem_of_find?_eq_some found), found, kind_of_child found⟩

theorem isSome_packageName {n : Node} (member : n ∈ root.descendants) (file : n.kind = .sourceFile) :
    n.packageName.isSome = true := by
  obtain ⟨clause, below, found, kind⟩ := exists_child shaped member (by rw [file]; rfl)
  have name := isSome_identifier shaped below (by rw [kind]; rfl)
  rw [packageName, found, Option.bind_some, identifierText, Option.isSome_map, name]

theorem exists_typeReference {n : Node} (member : n ∈ root.descendants) (name : n.kind = .typeName) :
    ∃ r, n.typeReference = some r ∧ r.identifier.isSome = true := by
  obtain ⟨r, below, found, kind⟩ := exists_child shaped member (by rw [name]; rfl)
  refine ⟨r, ?_, isSome_identifier shaped below (by rw [kind]; rfl)⟩
  rw [typeReference, if_pos (beq_iff_eq.mpr name), found]

/-- A named type, or a pointer to one, has a name. -/
theorem exists_name {n : Node} (member : n ∈ root.descendants)
    (named : Part.named.isAt (.node n.kind n.trees) = true) :
    ∃ r, n.stripPointers.typeReference = some r ∧ r.identifier.isSome = true := by
  rcases Bool.or_eq_true_iff.mp named with name | pointer
  · have own := beq_iff_eq.mp name
    rw [stripPointers, strip_of_typeName own]
    exact exists_typeReference shaped member own
  · obtain ⟨pointer, inner⟩ := Bool.and_eq_true_iff.mp pointer
    obtain ⟨once, name⟩ := Bool.and_eq_true_iff.mp inner
    obtain ⟨c, among, name⟩ := List.any_eq_true.mp ((any_children n _).trans name)
    have own := beq_iff_eq.mp name
    have typ : n.typeExpr = some c := childWhere_of_once (beq_iff_eq.mp once) among (by rw [own]; rfl)
    have inside : n.innerType = some c := by
      rw [innerType, beq_iff_eq.mp pointer]
      exact typ
    obtain ⟨depth, stripped⟩ := stripPointers_of_innerType among inside
    rw [stripped, strip_of_typeName own]
    exact exists_typeReference shaped (child_mem_descendants member among) own

theorem isSome_embeddedName {n : Node} (member : n ∈ root.descendants) (embedded : n.kind = .anonFieldDef) :
    n.embeddedName.isSome = true := by
  have met := met_ownNeeds shaped member
  rw [embedded] at met
  obtain ⟨once, named⟩ := Bool.and_eq_true_iff.mp met
  obtain ⟨c, among, named⟩ := exists_child_of_any n (fun _ _ => rfl) named
  have typ : n.typeExpr = some c := childWhere_of_once (beq_iff_eq.mp once) among (isTypeExpr_of_named named)
  obtain ⟨r, found, name⟩ := exists_name shaped (child_mem_descendants member among) named
  rw [embeddedName, embeddedReference, typ, Option.bind_some, found, Option.bind_some, name]

theorem isSome_fieldType {n : Node} (member : n ∈ root.descendants) (field : n.kind = .fieldDef)
    (top : root.kind ≠ .fieldDef) : (n.specType .fieldDecl).isSome = true := by
  have below := mem_descendants_iff_below.mp member
  cases below with
  | root => exact absurd field top
  | @child p _ above child =>
    have around := mem_descendants_iff_below.mpr above
    have holds : p.trees.any (Tree.isNode (· == .fieldDef)) = true := by
      rw [← any_children]
      exact List.any_eq_true.mpr ⟨n, child, beq_iff_eq.mpr field⟩
    have kind := kind_of_fieldDef shaped around holds
    have met := met_ownNeeds shaped around
    have typed : p.trees.any (Tree.isNode Kind.isTypeExpr) = true := by
      rw [kind] at met
      simp only [Kind.ownNeeds, Needs.met, Part.isAt, holds, Bool.true_and, Bool.not_true, Bool.false_and,
        Bool.and_false, Bool.or_false] at met
      exact (Bool.and_eq_true_iff.mp met).1
    rw [specType, parent_of_mem_children child, Option.filter_some, if_pos (beq_iff_eq.mpr kind), Option.bind_some,
      typeExpr, isSome_childWhere, typed]

/-- A field declaration has fields and their type, or it embeds one type. -/
theorem fieldDecl_hasRequiredParts {n : Node} (member : n ∈ root.descendants) (kind : n.kind = .fieldDecl) :
    n.hasRequiredParts = true := by
  have met := met_ownNeeds shaped member
  rw [kind] at met
  simp only [hasRequiredParts, kind, childrenOf, typeExpr, isEmpty_childrenWhere, length_childrenWhere,
    isSome_childWhere, isNone_childWhere, Bool.not_not]
  rcases Bool.or_eq_true_iff.mp met with fields | embedded
  · simp only [Needs.met, Part.isAt] at fields
    simp only [child, isNone_childWhere, Bool.and_assoc, fields, Bool.true_or]
  · obtain ⟨once, others⟩ := Bool.and_eq_true_iff.mp embedded
    have alone := beq_iff_eq.mp once
    obtain ⟨c, among, isOne⟩ := exists_child_of_any n (fun _ _ => rfl)
      (List.any_eq_true.mpr (List.countP_pos_iff.mp (Nat.lt_of_lt_of_eq Nat.one_pos alone.symm)))
    have found : n.child .anonFieldDef = some c := childWhere_of_once alone among isOne
    have name := isSome_embeddedName shaped (child_mem_descendants member among) (beq_iff_eq.mp isOne)
    simp only [Needs.met, Part.isAt] at once others
    simp only [found, Option.any_some, name, once, others, Bool.and_assoc, Bool.true_and, Bool.or_true]

theorem hasRequiredParts_of_shaped (top : root.kind ≠ .fieldDef) {n : Node} (member : n ∈ root.descendants) :
    n.hasRequiredParts = true := by
  have met := met_ownNeeds shaped member
  unfold hasRequiredParts
  split
  case h_1 kind => exact isSome_packageName shaped member kind
  case h_2 kind =>
    obtain ⟨r, found, _⟩ := exists_typeReference shaped member kind
    rw [found, Option.isSome_some]
  case h_3 kind =>
    have name := isSome_identifier shaped member (by rw [kind]; rfl)
    rw [name, isSome_fieldType shaped member kind top]
    rfl
  case h_4 kind =>
    have parts := fieldDecl_hasRequiredParts shaped member kind
    simpa only [hasRequiredParts, kind] using parts
  case h_5 kind =>
    rw [kind] at met
    simp only [Kind.ownNeeds, Needs.met, Part.isAt, Bool.or_eq_true, Bool.and_eq_true, Bool.not_eq_true'] at met
    simp only [child, typeExpr, isSome_childWhere]
    rcases met with ⟨parameters, noType⟩ | ⟨noParameters, typ⟩
    · rw [parameters, noType]
      rfl
    · rw [noParameters, typ]
      rfl
  case h_22 => rfl
  -- what is left is a direct reading of what the kind needs
  all_goals
    rename_i kind
    rw [kind] at met
    simpa [Kind.ownNeeds, Needs.met, Part.isAt, identifier, child, childrenOf, typeExpr, and_assoc] using met

end

end Node

namespace Parse

theorem complete_of_ok {text : String} (ok : (ofText text).ok = true) : (ofText text).tree.Shaped Complete := by
  obtain ⟨shaped, counts⟩ := Grammar.tally_sound.ofTokens Grammar.tally_passes (Or.inr (List.isEmpty_iff.mp ok))
  exact ⟨Grammar.met_of_ensures counts (by decide +kernel), shaped⟩

/-- In a file without syntax errors no node lacks a part that it must have. -/
theorem hasRequiredParts_of_ok {text : String} (ok : (ofText text).ok = true) :
    (Node.root (ofText text).tree).packageName.isSome = true ∧
      ∀ n ∈ (Node.root (ofText text).tree).descendants, n.hasRequiredParts = true := by
  have shaped : (Tree.node (Node.root (ofText text).tree).kind (Node.root (ofText text).tree).trees).Shaped Complete :=
    complete_of_ok ok
  exact ⟨Node.isSome_packageName shaped (Node.self_mem_descendants _) rfl,
    fun n => Node.hasRequiredParts_of_shaped shaped nofun⟩

/-- Declarations with all sorts of parts, an embedded type behind a pointer among them. -/
theorem hasRequiredParts_of_ok_method :
    let file := ofText "package p; type S struct \x7b *q.T; a, b int \x7d; func (s S) m() (x []int) \x7b return \x7d"
    file.ok = true ∧ (∀ n ∈ (Node.root file.tree).descendants, n.hasRequiredParts = true) ∧
      [Kind.anonFieldDef, .fieldDef, .methodDecl, .result].all
        ((Node.root file.tree).descendants.map Node.kind).contains = true := by
  have ok : (ofText "package p; type S struct \x7b *q.T; a, b int \x7d; func (s S) m() (x []int) \x7b return \x7d").ok = true := by
    decide +kernel
  exact ⟨ok, (hasRequiredParts_of_ok ok).2, by decide +kernel⟩

end Parse

end GoNav
