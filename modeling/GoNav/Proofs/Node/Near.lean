import GoNav.Declaration
import GoNav.Proofs.Node.Descent

namespace GoNav.Node

/-! Parts of a type -/

theorem innerType_mem_children {typ inner : Node} (found : typ.innerType = some inner) :
    inner ∈ typ.children := by
  unfold innerType at found
  split at found
  · exact List.mem_of_find?_eq_some found
  · exact List.mem_of_find?_eq_some found
  · cases found

theorem strip_mem_descendants (depth : Nat) (typ : Node) : typ.strip depth ∈ typ.descendants := by
  induction depth generalizing typ with
  | zero => exact self_mem_descendants typ
  | succ depth ih =>
    rw [strip]
    split
    · rename_i inner found
      exact mem_descendants.mpr (.inr ⟨inner, innerType_mem_children found, ih inner⟩)
    · exact self_mem_descendants typ

theorem typeReference_mem_children {typ reference : Node} (found : typ.typeReference = some reference) :
    reference ∈ typ.children := by
  unfold typeReference at found
  split at found
  · exact List.mem_of_find?_eq_some found
  · cases found

theorem embeddedReference_mem_descendants {field reference : Node}
    (found : field.embeddedReference = some reference) : reference ∈ field.descendants := by
  obtain ⟨typ, typed, inner⟩ := Option.bind_eq_some_iff.mp found
  have outer := child_mem_descendants (self_mem_descendants field) (List.mem_of_find?_eq_some typed)
  exact child_mem_descendants (descendants_trans outer (strip_mem_descendants _ typ))
    (typeReference_mem_children inner)

/-- A node that stands in every whole tree in which another one does. -/
def Near (n m : Node) : Prop :=
  ∀ root : Node, root.parent = none → n ∈ root.descendants → m ∈ root.descendants

namespace Near

theorem refl (n : Node) : n.Near n :=
  fun _ _ member => member

theorem trans {n m k : Node} (first : n.Near m) (second : m.Near k) : n.Near k :=
  fun root top member => second root top (first root top member)

theorem child {n c : Node} (member : c ∈ n.children) : n.Near c :=
  fun _ _ inside => child_mem_descendants inside member

theorem ancestor {n a : Node} (member : a ∈ n.ancestors) : n.Near a :=
  fun _ top inside => (mem_descendants_iff_below.mp inside).ancestors_mem top a member

theorem parent {n p : Node} (above : n.parent = some p) : n.Near p :=
  ancestor (ancestors_of_parent above ▸ List.mem_cons_self ..)

/-! Parts -/

theorem childWhere {n c : Node} {p : Kind → Bool} (found : n.childWhere p = some c) : n.Near c :=
  child (List.mem_of_find?_eq_some found)

theorem childrenOf {n c : Node} {kind : Kind} (member : c ∈ n.childrenOf kind) : n.Near c :=
  child (List.mem_filter.mp member).1

theorem innerType {typ inner : Node} (found : typ.innerType = some inner) : typ.Near inner :=
  child (innerType_mem_children found)

theorem typeReference {typ reference : Node} (found : typ.typeReference = some reference) :
    typ.Near reference :=
  child (typeReference_mem_children found)

theorem embeddedReference {field reference : Node} (found : field.embeddedReference = some reference) :
    field.Near reference :=
  fun _ _ inside => descendants_trans inside (embeddedReference_mem_descendants found)

theorem literalType {depth : Nat} {e typ : Node} (found : Node.literalType depth e = some typ) :
    e.Near typ := by
  induction depth generalizing e with
  | zero => cases found
  | succ depth ih =>
    have inside : ∀ {e : Node}, e.expression.bind (Node.literalType depth) = some typ → e.Near typ := by
      intro e further
      obtain ⟨inner, within, literal⟩ := Option.bind_eq_some_iff.mp further
      exact (childWhere within).trans (ih literal)
    rw [Node.literalType] at found
    split at found
    · exact childWhere found
    · split at found
      · exact inside found
      · cases found
    · exact inside found
    · cases found

theorem specType {definition typ : Node} {spec : Kind} (found : definition.specType spec = some typ) :
    definition.Near typ := by
  obtain ⟨around, above, typed⟩ := Option.bind_eq_some_iff.mp found
  exact (parent (Option.filter_eq_some_iff.mp above).1).trans (childWhere typed)

theorem varValue {definition value : Node} (found : definition.varValue = some value) :
    definition.Near value := by
  unfold Node.varValue at found
  split at found
  · cases found
  · rename_i around above
    split at found
    · cases found
    · have member := List.mem_filter.mp (List.mem_of_getElem? found)
      exact (parent above).trans (child member.1)

theorem declaredType {n typ : Node} (found : n.declaredType = some typ) : n.Near typ := by
  unfold Node.declaredType at found
  split at found
  · rcases Option.or_eq_some_iff.mp found with given | ⟨_, literal⟩
    · exact specType given
    · obtain ⟨value, valued, typed⟩ := Option.bind_eq_some_iff.mp literal
      exact (varValue valued).trans (literalType typed)
  · exact specType found
  · exact specType found
  · exact specType found
  · exact childWhere found
  · exact childWhere found
  · exact childWhere found
  · cases found

end Near

/-- The type of a literal stands in the literal. -/
theorem exists_around_of_literalType {depth : Nat} {e typ : Node} (found : literalType depth e = some typ) :
    ∃ around : Node, around.typeExpr = some typ ∧ around.kind = .compositeLit := by
  induction depth generalizing e with
  | zero => cases found
  | succ depth ih =>
    have inside {e : Node} (further : e.expression.bind (literalType depth) = some typ) :
        ∃ around : Node, around.typeExpr = some typ ∧ around.kind = .compositeLit := by
      obtain ⟨_, _, literal⟩ := Option.bind_eq_some_iff.mp further
      exact ih literal
    rw [literalType] at found
    split at found
    · rename_i kind
      exact ⟨e, found, kind⟩
    · split at found
      · exact inside found
      · cases found
    · exact inside found
    · cases found

/-- A declared type is written in some node, and is the right-hand side of no declaration of a type but the
one that gives it. -/
theorem exists_around_of_declaredType {n typ : Node} (found : n.declaredType = some typ) :
    ∃ around : Node, around.typeExpr = some typ ∧ (around.kind = .typeSpec → around = n) := by
  have ofSpec {kind : Kind} (other : kind ≠ .typeSpec) (given : n.specType kind = some typ) :
      ∃ around : Node, around.typeExpr = some typ ∧ (around.kind = .typeSpec → around = n) := by
    obtain ⟨around, above, typed⟩ := Option.bind_eq_some_iff.mp given
    have is := eq_of_beq (Option.filter_eq_some_iff.mp above).2
    exact ⟨around, typed, fun declaration => absurd (is.symm.trans declaration) other⟩
  unfold declaredType at found
  split at found
  · rcases Option.or_eq_some_iff.mp found with given | ⟨_, literal⟩
    · exact ofSpec (by decide) given
    · obtain ⟨value, _, made⟩ := Option.bind_eq_some_iff.mp literal
      obtain ⟨around, typed, kind⟩ := exists_around_of_literalType made
      exact ⟨around, typed, fun declaration => by rw [kind] at declaration; cases declaration⟩
  · exact ofSpec (by decide) found
  · exact ofSpec (by decide) found
  · exact ofSpec (by decide) found
  · exact ⟨n, found, fun _ => rfl⟩
  · exact ⟨n, found, fun _ => rfl⟩
  · exact ⟨n, found, fun _ => rfl⟩
  · cases found

theorem kind_of_mem_childrenOf {n c : Node} {kind : Kind} (member : c ∈ n.childrenOf kind) :
    c.kind = kind :=
  eq_of_beq (List.mem_filter.mp member).2

theorem kind_of_child {n c : Node} {kind : Kind} (found : n.child kind = some c) : c.kind = kind :=
  eq_of_beq (List.find?_some (p := fun m : Node => m.kind == kind) found)

end GoNav.Node
