import GoNav.Node
import Mathlib.Data.List.Nodup

namespace GoNav

/-- An element and all that is below it, each thing before its own parts. -/
def Element.preorder : Element → List Element
  | .node n => n.preorder
  | .leaf l => [.leaf l]

namespace Node

theorem preorderTrees_eq (parent : Node) (index start : Nat) (trees : List Tree) :
    preorderTrees parent index start trees =
      (elementsIn parent index start trees).flatMap Element.preorder := by
  induction trees generalizing index start with
  | nil => rfl
  | cons t rest ih =>
    simp only [preorderTrees, elementsIn, List.flatMap_cons, ih]
    cases t <;> rfl

theorem preorder_eq (n : Node) : n.preorder = .node n :: n.elements.flatMap Element.preorder := by
  rw [preorder, preorderTrees_eq]
  rfl

/-- A node comes before the nodes below its children, one child after the other. -/
theorem descendants_eq (n : Node) : n.descendants = n :: n.children.flatMap descendants := by
  simp only [descendants, preorder_eq, List.filterMap_cons, Element.node?, children]
  congr 1
  induction n.elements with
  | nil => rfl
  | cons e rest ih =>
    cases e with
    | node c =>
      simp only [List.flatMap_cons, List.filterMap_append, List.filterMap_cons, ih, Element.node?]
      rfl
    | leaf l =>
      simp only [List.flatMap_cons, List.filterMap_append, List.filterMap_cons, ih, Element.node?]
      rfl

/-- A child is a tree of its parent, and knows its parent and which child of it it is. -/
theorem mem_elementsIn {parent c : Node} {index start : Nat} {trees : List Tree}
    (member : .node c ∈ elementsIn parent index start trees) :
    .node c.kind c.trees ∈ trees ∧ c.parent = some parent ∧ ∃ k, c.index = index + k ∧
      (elementsIn parent index start trees)[k]? = some (.node c) := by
  induction trees generalizing index start with
  | nil => simp [elementsIn] at member
  | cons t rest ih =>
    simp only [elementsIn, List.mem_cons] at member
    rcases member with here | later
    · cases t with
      | token kind text => cases here
      | node kind trees =>
        cases here
        exact ⟨List.mem_cons_self .., rfl, 0, rfl, rfl⟩
    · obtain ⟨tree, parentEq, k, indexEq, place⟩ := ih later
      exact ⟨List.mem_cons_of_mem _ tree, parentEq, k + 1, by omega, place⟩

theorem mem_children {n c : Node} : c ∈ n.children ↔ .node c ∈ n.elements := by
  simp only [children, List.mem_filterMap]
  constructor
  · rintro ⟨e, member, isNode⟩
    cases e with
    | node m => cases isNode; exact member
    | leaf l => cases isNode
  · intro member
    exact ⟨.node c, member, rfl⟩

theorem parent_of_mem_children {n c : Node} (member : c ∈ n.children) : c.parent = some n :=
  (mem_elementsIn (mem_children.mp member)).2.1

theorem getElem?_index {n c : Node} (member : c ∈ n.children) :
    n.elements[c.index]? = some (.node c) := by
  obtain ⟨_, _, k, index, place⟩ := mem_elementsIn (mem_children.mp member)
  rw [Nat.zero_add] at index
  rw [index]
  exact place

/-- What holds of a node as soon as it holds of its children holds of every node. -/
theorem children_induction {motive : Node → Prop}
    (step : ∀ n, (∀ c ∈ n.children, motive c) → motive n) (n : Node) : motive n := by
  induction size : sizeOf n.trees using Nat.strongRecOn generalizing n with
  | ind size ih =>
    apply step
    intro c member
    have tree := (mem_elementsIn (mem_children.mp member)).1
    have smaller := List.sizeOf_lt_of_mem tree
    simp only [Tree.node.sizeOf_spec] at smaller
    exact ih (sizeOf c.trees) (by omega) c rfl

theorem mem_descendants {n m : Node} :
    m ∈ n.descendants ↔ m = n ∨ ∃ c ∈ n.children, m ∈ c.descendants := by
  rw [descendants_eq, List.mem_cons, List.mem_flatMap]

theorem self_mem_descendants (n : Node) : n ∈ n.descendants :=
  mem_descendants.mpr (Or.inl rfl)

theorem descendants_trans {n m k : Node} (outer : m ∈ n.descendants) (inner : k ∈ m.descendants) :
    k ∈ n.descendants := by
  induction n using children_induction with
  | step n ih =>
    rcases mem_descendants.mp outer with rfl | ⟨c, member, below⟩
    · exact inner
    · exact mem_descendants.mpr (Or.inr ⟨c, member, ih c member below⟩)

theorem child_mem_descendants {n m c : Node} (outer : m ∈ n.descendants) (member : c ∈ m.children) :
    c ∈ n.descendants :=
  descendants_trans outer (mem_descendants.mpr (Or.inr ⟨c, member, self_mem_descendants c⟩))

/-- The nodes of a tree, reached from its root child by child. -/
inductive Below (root : Node) : Node → Prop
  | root : Below root root
  | child {p c : Node} : Below root p → c ∈ p.children → Below root c

theorem below_of_mem_descendants {n m k : Node} (above : Below k n) (member : m ∈ n.descendants) :
    Below k m := by
  induction n using children_induction with
  | step n ih =>
    rcases mem_descendants.mp member with rfl | ⟨c, child, below⟩
    · exact above
    · exact ih c child (above.child child) below

theorem mem_descendants_iff_below {root n : Node} : n ∈ root.descendants ↔ Below root n := by
  constructor
  · exact below_of_mem_descendants .root
  · intro below
    induction below with
    | root => exact self_mem_descendants root
    | child _ member ih => exact child_mem_descendants ih member

theorem ancestors_of_parent {n p : Node} (parent : n.parent = some p) : n.ancestors = p :: p.ancestors := by
  obtain ⟨kind, start, trees, index, above⟩ := n
  subst parent
  rw [ancestors]

theorem path_of_parent {n p : Node} (parent : n.parent = some p) : n.path = n.index :: p.path := by
  rw [path, ancestors_of_parent parent, List.map_cons]
  rfl

theorem path_of_root {n : Node} (parent : n.parent = none) : n.path = [n.index] := by
  obtain ⟨kind, start, trees, index, above⟩ := n
  subst parent
  rw [path, ancestors]
  rfl

theorem Below.ancestors_mem {root n : Node} (top : root.parent = none) (below : Below root n) :
    ∀ a ∈ n.ancestors, a ∈ root.descendants := by
  induction below with
  | root =>
    obtain ⟨kind, start, trees, index, above⟩ := root
    subst top
    simp [ancestors]
  | @child p c above member ih =>
    intro a among
    rw [ancestors_of_parent (parent_of_mem_children member), List.mem_cons] at among
    rcases among with rfl | further
    · exact mem_descendants_iff_below.mpr above
    · exact ih a further

theorem Below.mem_ancestors {n m : Node} (below : Below n m) : n ∈ m :: m.ancestors := by
  induction below with
  | root => exact List.mem_cons_self ..
  | child _ member ih =>
    rw [ancestors_of_parent (parent_of_mem_children member)]
    exact List.mem_cons_of_mem _ ih

/-- No two nodes of a tree have the same place. -/
theorem Below.eq_of_path_eq {root n m : Node} (top : root.parent = none) (below : Below root n)
    (other : Below root m) (same : n.path = m.path) : n = m := by
  induction below generalizing m with
  | root =>
    cases other with
    | root => rfl
    | child above member =>
      have length := congrArg List.length same
      rw [path_of_root top, path_of_parent (parent_of_mem_children member)] at length
      simp [path] at length
  | @child p c above member ih =>
    rw [path_of_parent (parent_of_mem_children member)] at same
    cases other with
    | root =>
      have length := congrArg List.length same
      rw [path_of_root top] at length
      simp [path] at length
    | @child q _ otherAbove otherMember =>
      rw [path_of_parent (parent_of_mem_children otherMember)] at same
      obtain ⟨index, paths⟩ := List.cons.inj same
      have parents := ih otherAbove paths
      subst parents
      have place := getElem?_index member
      rw [index, getElem?_index otherMember] at place
      cases place
      rfl

theorem path_suffix {n m : Node} (member : m ∈ n.descendants) : n.path <:+ m.path := by
  induction n using children_induction with
  | step n ih =>
    rcases mem_descendants.mp member with rfl | ⟨c, child, below⟩
    · exact List.suffix_refl _
    · have parent := path_of_parent (parent_of_mem_children child)
      exact (parent ▸ List.suffix_cons c.index n.path).trans (ih c child below)

theorem pairwise_index_elementsIn (parent : Node) (index start : Nat) (trees : List Tree) :
    ((elementsIn parent index start trees).filterMap Element.node?).Pairwise fun a b => a.index < b.index := by
  induction trees generalizing index start with
  | nil => exact List.Pairwise.nil
  | cons t rest ih =>
    cases t with
    | token kind text => exact ih _ _
    | node kind trees =>
      refine List.pairwise_cons.mpr ⟨?_, ih _ _⟩
      intro c member
      obtain ⟨e, among, isNode⟩ := List.mem_filterMap.mp member
      cases e with
      | leaf l => cases isNode
      | node m =>
        cases isNode
        obtain ⟨_, _, k, position, _⟩ := mem_elementsIn among
        show index < c.index
        omega

/-- The nodes below a node have places of their own: none of them is met twice. -/
theorem nodup_paths (n : Node) : (n.descendants.map path).Nodup := by
  induction n using children_induction with
  | step n ih =>
    rw [descendants_eq, List.map_cons, List.map_flatMap, List.nodup_cons, List.nodup_flatMap]
    have below : ∀ {c m : Node}, c ∈ n.children → m ∈ c.descendants → c.index :: n.path <:+ m.path := by
      intro c m child member
      exact path_of_parent (parent_of_mem_children child) ▸ path_suffix member
    refine ⟨?_, ih, ?_⟩
    · intro member
      obtain ⟨c, child, among⟩ := List.mem_flatMap.mp member
      obtain ⟨m, inside, same⟩ := List.mem_map.mp among
      have longer := (below child inside).length_le
      rw [same, List.length_cons] at longer
      omega
    · -- A place below two children would end in the places of both, which differ in the last step.
      refine (pairwise_index_elementsIn n 0 n.start n.trees).imp_of_mem ?_
      intro c d child other earlier path inC inD
      obtain ⟨m, insideC, rfl⟩ := List.mem_map.mp inC
      obtain ⟨k, insideD, same⟩ := List.mem_map.mp inD
      have left := below child insideC
      have right := below other insideD
      rw [same] at right
      have equal := (List.suffix_of_suffix_length_le left right (by simp)).eq_of_length (by simp)
      exact Nat.ne_of_lt earlier (List.cons.inj equal).1

/-! Tokens -/

/-- The tokens below a node, from left to right. -/
def leaves (n : Node) : List Leaf :=
  n.preorder.filterMap Element.leaf?

end Node

/-- What a token is and how it is written, wherever it stands. -/
def Leaf.written (l : Leaf) : Kind × String :=
  (l.kind, l.text)

/-- The tokens in an element. -/
def Element.leaves : Element → List Leaf
  | .node n => n.leaves
  | .leaf l => [l]

namespace Node

theorem leaves_eq (n : Node) : n.leaves = n.elements.flatMap Element.leaves := by
  simp only [leaves, preorder_eq, List.filterMap_cons, Element.leaf?, List.filterMap_flatMap]
  congr 1
  funext e
  cases e <;> rfl

theorem mem_tokens {n : Node} {l : Leaf} : l ∈ n.tokens ↔ .leaf l ∈ n.elements := by
  simp only [tokens, List.mem_filterMap]
  constructor
  · rintro ⟨e, member, isLeaf⟩
    cases e with
    | node m => cases isLeaf
    | leaf k => cases isLeaf; exact member
  · intro member
    exact ⟨.leaf l, member, rfl⟩

theorem mem_leaves {n : Node} {l : Leaf} : l ∈ n.leaves ↔ ∃ m ∈ n.descendants, l ∈ m.tokens := by
  induction n using children_induction with
  | step n ih =>
    rw [leaves_eq, List.mem_flatMap]
    constructor
    · rintro ⟨e, member, inside⟩
      cases e with
      | leaf k =>
        cases List.mem_singleton.mp inside
        exact ⟨n, self_mem_descendants n, mem_tokens.mpr member⟩
      | node c =>
        have child := mem_children.mpr member
        obtain ⟨m, below, token⟩ := (ih c child).mp inside
        exact ⟨m, mem_descendants.mpr (Or.inr ⟨c, child, below⟩), token⟩
    · rintro ⟨m, below, token⟩
      rcases mem_descendants.mp below with rfl | ⟨c, child, further⟩
      · exact ⟨.leaf l, mem_tokens.mp token, List.mem_singleton.mpr rfl⟩
      · exact ⟨.node c, mem_children.mp child, (ih c child).mpr ⟨m, further, token⟩⟩

theorem parent_of_mem_elementsIn {parent : Node} {l : Leaf} {index start : Nat} {trees : List Tree}
    (member : .leaf l ∈ elementsIn parent index start trees) : l.parent = parent := by
  induction trees generalizing index start with
  | nil => simp [elementsIn] at member
  | cons t rest ih =>
    simp only [elementsIn, List.mem_cons] at member
    rcases member with here | later
    · cases t with
      | token kind text => cases here; rfl
      | node kind trees => cases here
    · exact ih later

theorem parent_of_mem_tokens {n : Node} {l : Leaf} (member : l ∈ n.tokens) : l.parent = n :=
  parent_of_mem_elementsIn (mem_tokens.mp member)

theorem written_elementsIn {parent : Node} {index start : Nat} {trees : List Tree}
    (inside : ∀ c, .node c ∈ elementsIn parent index start trees →
      c.leaves.map Leaf.written = Tree.leavesOf c.trees) :
    ((elementsIn parent index start trees).flatMap Element.leaves).map Leaf.written =
      Tree.leavesOf trees := by
  induction trees generalizing index start with
  | nil => rfl
  | cons t rest ih =>
    simp only [elementsIn, List.flatMap_cons, List.map_append, Tree.leavesOf]
    rw [ih fun c member => inside c (List.mem_cons_of_mem _ member)]
    congr 1
    cases t with
    | token kind text => rfl
    | node kind trees => exact inside _ (List.mem_cons_self ..)

theorem exists_token_of_mem_trees {n : Node} {kind : Kind} {text : String}
    (member : .token kind text ∈ n.trees) : ∃ l ∈ n.tokens, l.kind = kind := by
  suffices inside : ∀ index start, ∃ l, .leaf l ∈ elementsIn n index start n.trees ∧ l.kind = kind by
    obtain ⟨l, among, same⟩ := inside 0 n.start
    exact ⟨l, mem_tokens.mpr among, same⟩
  generalize n.trees = trees at member
  induction trees with
  | nil => cases member
  | cons t rest ih =>
    intro index start
    rcases List.mem_cons.mp member with rfl | later
    · exact ⟨⟨kind, text, start, n⟩, List.mem_cons_self .., rfl⟩
    · obtain ⟨l, among, same⟩ := ih later (index + 1) (start + t.bytes)
      exact ⟨l, List.mem_cons_of_mem _ among, same⟩

end Node

/-- The tree of an element, without its place. -/
def Element.tree : Element → Tree
  | .node n => .node n.kind n.trees
  | .leaf l => .token l.kind l.text

namespace Node

theorem map_tree_elementsIn (parent : Node) (index start : Nat) (trees : List Tree) :
    (elementsIn parent index start trees).map Element.tree = trees := by
  induction trees generalizing index start with
  | nil => rfl
  | cons t rest ih =>
    simp only [elementsIn, List.map_cons, ih]
    cases t <;> rfl

/-- The children of a node are its trees. -/
theorem map_tree_elements (n : Node) : n.elements.map Element.tree = n.trees :=
  map_tree_elementsIn ..

theorem mem_trees_of_mem_tokens {n : Node} {l : Leaf} (member : l ∈ n.tokens) :
    .token l.kind l.text ∈ n.trees := by
  rw [← map_tree_elements]
  exact List.mem_map_of_mem (mem_tokens.mp member)

/-- The tokens below a node are those of its trees. -/
theorem leaves_written (n : Node) : n.leaves.map Leaf.written = Tree.leavesOf n.trees := by
  induction n using children_induction with
  | step n ih =>
    rw [leaves_eq]
    exact written_elementsIn fun c member => ih c (mem_children.mpr member)

end Node

end GoNav
