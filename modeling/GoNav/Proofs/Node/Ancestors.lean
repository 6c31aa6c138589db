import GoNav.Proofs.Node.Order
import Mathlib.Data.List.Pairwise

namespace GoNav.Node

variable {root n m a b c : Node}

/-! The nodes around a node -/

theorem suffix_ancestors (around : a ∈ n.ancestors) : a :: a.ancestors <:+ n.ancestors := by
  induction n using ancestors.induct with
  | case1 => simp [ancestors] at around
  | case2 kind start trees index p ih =>
    rw [ancestors] at around ⊢
    rcases List.mem_cons.mp around with rfl | further
    · exact List.suffix_refl _
    · exact (ih further).trans (List.suffix_cons _ _)

theorem ancestors_trans (outer : a ∈ n.ancestors) (further : b ∈ a.ancestors) : b ∈ n.ancestors :=
  (suffix_ancestors outer).subset (List.mem_cons_of_mem _ further)

/-- The nodes around a node lie around one another. -/
theorem pairwise_ancestors (n : Node) : n.ancestors.Pairwise fun inner outer => outer ∈ inner.ancestors := by
  induction n using ancestors.induct with
  | case1 => simp [ancestors]
  | case2 kind start trees index p ih =>
    rw [ancestors]
    exact List.pairwise_cons.mpr ⟨fun _ member => member, ih⟩

/-- What lies in a node lies in one of its children. -/
theorem Below.exists_child (below : Below root n) (top : root.parent = none) (around : a ∈ n.ancestors) :
    ∃ c ∈ a.children, n ∈ c.descendants := by
  induction below with
  | root =>
    obtain ⟨kind, start, trees, index, above⟩ := root
    subst top
    simp [ancestors] at around
  | @child p c above member ih =>
    rw [ancestors_of_parent (parent_of_mem_children member), List.mem_cons] at around
    rcases around with rfl | further
    · exact ⟨c, member, self_mem_descendants c⟩
    · obtain ⟨d, child, inside⟩ := ih further
      exact ⟨d, child, child_mem_descendants inside member⟩

/-! The order of the children -/

theorem start_le_stop (n : Node) : n.start ≤ n.stop :=
  Nat.le_add_right ..

theorem bounds_of_mem_children (member : c ∈ n.children) : n.start ≤ c.start ∧ c.stop ≤ n.stop :=
  bounds_of_mem_elementsIn (mem_children.mp member)

theorem bounds_of_mem_descendants (member : m ∈ n.descendants) : n.start ≤ m.start ∧ m.stop ≤ n.stop := by
  induction mem_descendants_iff_below.mp member with
  | root => exact ⟨Nat.le_refl _, Nat.le_refl _⟩
  | @child p c above child ih =>
    have outer := ih (mem_descendants_iff_below.mpr above)
    have inner := bounds_of_mem_children child
    omega

theorem pairwise_children (n : Node) : n.children.Pairwise fun c d => c.stop ≤ d.start := by
  refine List.pairwise_filterMap.mpr ((pairwise_elementsIn n 0 n.start n.trees).imp ?_)
  intro e e' order c isNode d isNode'
  cases e <;> cases isNode
  cases e' <;> cases isNode'
  exact order

theorem children_apart (left : a ∈ n.children) (right : b ∈ n.children) :
    a = b ∨ a.stop ≤ b.start ∨ b.stop ≤ a.start := by
  have order : n.children.Pairwise fun a b => a = b ∨ a.stop ≤ b.start ∨ b.stop ≤ a.start :=
    (pairwise_children n).imp fun before => .inr (.inl before)
  have symmetric : Std.Symm fun a b : Node => a = b ∨ a.stop ≤ b.start ∨ b.stop ≤ a.start :=
    ⟨fun a b => by rintro (same | before | behind) <;> simp_all⟩
  exact order.forall_of_forall (fun _ _ => .inl rfl) left right

/-- What comes before a child that is over is over too. -/
theorem mem_takeWhile_children {offset : Nat} (member : c ∈ n.children) (ended : c.stop ≤ offset) :
    c ∈ n.children.takeWhile (·.stop ≤ offset) := by
  obtain ⟨before, behind, split⟩ := List.append_of_mem member
  have order := pairwise_children n
  rw [split, List.pairwise_append] at order
  have finished : ∀ d ∈ before, decide (d.stop ≤ offset) = true := by
    intro d earlier
    have ends := order.2.2 d earlier c (List.mem_cons_self ..)
    have positive := c.start_le_stop
    exact decide_eq_true (by omega)
  rw [split, List.takeWhile_append_of_pos finished, List.takeWhile_cons, if_pos (decide_eq_true ended)]
  simp

end GoNav.Node
