import GoNav.Proofs.Node.Descent

namespace GoNav

namespace Element

/-- The byte offset just behind an element. -/
def stop : Element → Nat
  | .node n => n.stop
  | .leaf l => l.stop

end Element

namespace Node

theorem bounds_of_mem_elementsIn {parent : Node} {index start : Nat} {trees : List Tree} {e : Element}
    (member : e ∈ elementsIn parent index start trees) :
    start ≤ e.start ∧ e.stop ≤ start + Tree.bytesOf trees := by
  induction trees generalizing index start with
  | nil => simp [elementsIn] at member
  | cons t rest ih =>
    simp only [elementsIn, List.mem_cons] at member
    rw [Tree.bytesOf]
    rcases member with rfl | later
    · cases t <;> simp [Element.start, Element.stop, Leaf.stop, stop, Tree.bytes]
    · have bounds := ih later
      omega

theorem pairwise_elementsIn (parent : Node) (index start : Nat) (trees : List Tree) :
    (elementsIn parent index start trees).Pairwise fun a b => a.stop ≤ b.start := by
  induction trees generalizing index start with
  | nil => exact List.Pairwise.nil
  | cons t rest ih =>
    refine List.pairwise_cons.mpr ⟨?_, ih _ _⟩
    intro e later
    have bound := (bounds_of_mem_elementsIn later).1
    cases t <;> exact bound

theorem bounds_of_mem_leaves {n : Node} {l : Leaf} (member : l ∈ n.leaves) :
    n.start ≤ l.start ∧ l.stop ≤ n.stop := by
  induction n using children_induction with
  | step n ih =>
    rw [leaves_eq] at member
    obtain ⟨e, among, inside⟩ := List.mem_flatMap.mp member
    have outer : n.start ≤ e.start ∧ e.stop ≤ n.stop := bounds_of_mem_elementsIn among
    cases e with
    | leaf k =>
      cases List.mem_singleton.mp inside
      exact outer
    | node c =>
      have inner := ih c (mem_children.mpr among) inside
      exact ⟨Nat.le_trans outer.1 inner.1, Nat.le_trans inner.2 outer.2⟩

theorem bounds_of_mem_element {e : Element} {l : Leaf} (member : l ∈ e.leaves) :
    e.start ≤ l.start ∧ l.stop ≤ e.stop := by
  cases e with
  | node n => exact bounds_of_mem_leaves member
  | leaf k =>
    cases List.mem_singleton.mp member
    exact ⟨Nat.le_refl _, Nat.le_refl _⟩

/-- Each token of a tree ends before the next one starts. -/
theorem pairwise_leaves (n : Node) : n.leaves.Pairwise fun a b => a.stop ≤ b.start := by
  induction n using children_induction with
  | step n ih =>
    rw [leaves_eq, List.pairwise_flatMap]
    constructor
    · intro e member
      cases e with
      | leaf l => exact List.pairwise_singleton _ l
      | node c => exact ih c (mem_children.mpr member)
    · refine (pairwise_elementsIn n 0 n.start n.trees).imp ?_
      intro d e order a inD b inE
      have left := (bounds_of_mem_element inD).2
      have right := (bounds_of_mem_element inE).1
      omega

/-- Where an offset lies inside a token or at its end, that token is the first one there. -/
theorem leavesAt_eq_cons {n : Node} {l : Leaf} {offset : Nat} (member : l ∈ n.leaves)
    (after : l.start < offset) (upTo : offset ≤ l.stop) : ∃ rest, n.leavesAt offset = l :: rest := by
  obtain ⟨before, behind, split⟩ := List.append_of_mem member
  have order := pairwise_leaves n
  rw [split, List.pairwise_append] at order
  -- What comes before the token ends where the token starts, so it does not reach the offset.
  have finished : ∀ k ∈ before, ¬ (k.start < k.stop && k.start ≤ offset && offset ≤ k.stop) = true := by
    intro k earlier
    have ends := order.2.2 k earlier l (List.mem_cons_self ..)
    simp only [Bool.and_eq_true, decide_eq_true_eq]
    omega
  have touches : (l.start < l.stop && l.start ≤ offset && offset ≤ l.stop) = true := by
    simp only [Bool.and_eq_true, decide_eq_true_eq]
    omega
  refine ⟨behind.filter fun k => k.start < k.stop && k.start ≤ offset && offset ≤ k.stop, ?_⟩
  have filtered := List.filter_eq_nil_iff.mpr finished
  rw [leavesAt, ← leaves, split, List.filter_append, filtered, List.filter_cons, if_pos touches]
  rfl

end Node

end GoNav
