import GoNav.Node.Parts
import GoNav.Proofs.Grammar.Shape
import GoNav.Proofs.Layout
import GoNav.Proofs.Node.Order
import Mathlib.Data.List.Forall2

namespace GoNav

section Related

variable {α β γ δ : Type} {R : α → β → Prop} {as : List α} {bs : List β}

/-- Lists with the same images have related elements in the same places. -/
theorem forall₂_of_map_eq {f : α → γ} {g : β → γ} (same : as.map f = bs.map g) :
    List.Forall₂ (fun a b => f a = g b) as bs := by
  rwa [← List.forall₂_eq_eq_eq, List.forall₂_map_left_iff, List.forall₂_map_right_iff] at same

theorem map_eq_of_forall₂ {f : α → γ} {g : β → γ} (related : List.Forall₂ R as bs)
    (same : ∀ a b, R a b → f a = g b) : as.map f = bs.map g := by
  rw [← List.forall₂_eq_eq_eq, List.forall₂_map_left_iff, List.forall₂_map_right_iff]
  exact related.imp fun a b => same a b

theorem flatMap_eq_of_forall₂ {f : α → List γ} {g : β → List γ} (related : List.Forall₂ R as bs)
    (same : ∀ a b, R a b → f a = g b) : as.flatMap f = bs.flatMap g := by
  rw [List.flatMap_def, List.flatMap_def, map_eq_of_forall₂ related same]

theorem findSome?_eq_of_forall₂ {f : α → Option γ} {g : β → Option γ} (related : List.Forall₂ R as bs)
    (same : ∀ a b, R a b → f a = g b) : as.findSome? f = bs.findSome? g := by
  induction related with
  | nil => rfl
  | cons here _ ih => rw [List.findSome?_cons, List.findSome?_cons, same _ _ here, ih]

theorem map_eq_of_rel {f : α → γ} {g : β → γ} {a : Option α} {b : Option β} (related : Option.Rel R a b)
    (same : ∀ a b, R a b → f a = g b) : a.map f = b.map g := by
  cases related with
  | some here => exact congrArg some (same _ _ here)
  | none => rfl

theorem forall₂_toList {a : Option α} {b : Option β} (related : Option.Rel R a b) :
    List.Forall₂ R a.toList b.toList := by
  cases related with
  | some here => exact .cons here .nil
  | none => exact .nil

theorem rel_bind {S : γ → δ → Prop} {f : α → Option γ} {g : β → Option δ} {a : Option α} {b : Option β}
    (related : Option.Rel R a b) (same : ∀ a b, R a b → Option.Rel S (f a) (g b)) :
    Option.Rel S (a.bind f) (b.bind g) := by
  cases related with
  | some here => exact same _ _ here
  | none => exact .none

theorem rel_find? {p : α → Bool} {q : β → Bool} (related : List.Forall₂ R as bs)
    (same : ∀ a b, R a b → p a = q b) :
    Option.Rel (fun a b => R a b ∧ p a = true) (as.find? p) (bs.find? q) := by
  induction related with
  | nil => exact .none
  | @cons a b _ _ here _ ih =>
    rw [List.find?_cons, List.find?_cons, ← same a b here]
    cases found : p a
    · exact ih
    · exact .some ⟨here, found⟩

/-- Lists that are put together from parts of the same lengths have related parts if they are related. -/
theorem forall₂_flatMap {S : γ → δ → Prop} {f : α → List γ} {g : β → List δ}
    (related : List.Forall₂ R as bs) (lengths : ∀ a b, R a b → (f a).length = (g b).length)
    (whole : List.Forall₂ S (as.flatMap f) (bs.flatMap g)) :
    List.Forall₂ (fun a b => R a b ∧ List.Forall₂ S (f a) (g b)) as bs := by
  induction related with
  | nil => exact .nil
  | @cons a b rest others here _ ih =>
    rw [List.flatMap_cons, List.flatMap_cons] at whole
    have first := List.forall₂_take (f a).length whole
    have later := List.forall₂_drop (f a).length whole
    rw [List.take_left' rfl, List.take_left' (lengths a b here).symm] at first
    rw [List.drop_left' rfl, List.drop_left' (lengths a b here).symm] at later
    exact .cons ⟨here, first⟩ (ih later)

end Related

/-! The significant parts of a node -/

namespace Element

/-- Whether an element is a blank or comment. -/
def isTrivia : Element → Bool
  | .node _ => false
  | .leaf l => l.kind.isTrivia

/-- What is left of an element in an outline. -/
def outline : Element → Outline
  | .node n => .node n.kind (Tree.outlineOf n.trees)
  | .leaf l => .token l.kind

end Element

namespace Node

/-- The children of a node, without blanks and comments. -/
def parts (n : Node) : List Element :=
  n.elements.filter (!·.isTrivia)

/-- The tokens below a node, without blanks and comments. -/
def words (n : Node) : List Leaf :=
  n.leaves.filter (!·.kind.isTrivia)

end Node

def Element.words : Element → List Leaf
  | .node n => n.words
  | .leaf l => [l]

namespace Node

theorem outlineOf_map_tree (elements : List Element) :
    Tree.outlineOf (elements.map Element.tree) = (elements.filter (!·.isTrivia)).map Element.outline := by
  induction elements with
  | nil => rfl
  | cons e rest ih =>
    rw [List.map_cons, Tree.outlineOf, ih]
    cases e with
    | node c => rfl
    | leaf l => cases blank : l.kind.isTrivia <;>
        simp [Element.tree, Tree.outline, Element.isTrivia, Element.outline, blank]

/-- The outline of a node is made of those of its parts. -/
theorem outlineOf_trees (n : Node) : Tree.outlineOf n.trees = n.parts.map Element.outline := by
  rw [← n.map_tree_elements, outlineOf_map_tree]
  rfl

theorem words_eq (n : Node) : n.words = n.parts.flatMap Element.words := by
  have each (elements : List Element) : (elements.flatMap Element.leaves).filter (!·.kind.isTrivia) =
      (elements.filter (!·.isTrivia)).flatMap Element.words := by
    induction elements with
    | nil => rfl
    | cons e rest ih =>
      rw [List.flatMap_cons, List.filter_append, ih]
      cases e with
      | node c => rfl
      | leaf l => cases blank : l.kind.isTrivia <;>
          simp [Element.leaves, Element.isTrivia, Element.words, blank]
  rw [words, leaves_eq, each]
  rfl

theorem children_eq_parts (n : Node) : n.children = n.parts.filterMap Element.node? := by
  rw [children, parts, List.filterMap_filter]
  congr 1
  funext e
  cases e with
  | node c => rfl
  | leaf l => simp [Element.node?]

theorem token_eq_parts (n : Node) {kind : Kind} (significant : kind.isTrivia = false) :
    n.token kind = (n.parts.filterMap Element.leaf?).find? (·.kind == kind) := by
  have tokens : n.parts.filterMap Element.leaf? = n.tokens.filter (!·.kind.isTrivia) := by
    rw [Node.tokens, parts, List.filter_filterMap, List.filterMap_filter]
    congr 1
    funext e
    cases e with
    | node c => rfl
    | leaf l => cases blank : l.kind.isTrivia <;> simp [Element.leaf?, Element.isTrivia, Option.filter, blank]
  rw [tokens, List.find?_filter, token]
  congr 1
  funext l
  by_cases same : l.kind = kind
  · simp [same, significant]
  · simp [beq_eq_false_iff_ne.mpr same]

theorem mem_children_of_parts {n c : Node} (member : .node c ∈ n.parts) : c ∈ n.children :=
  mem_children.mpr (List.mem_filter.mp member).1

theorem mem_parts_of_children {n c : Node} (member : c ∈ n.children) : .node c ∈ n.parts :=
  List.mem_filter.mpr ⟨mem_children.mp member, rfl⟩

/-- The parts of a node come one behind the other. -/
theorem pairwise_parts (n : Node) : n.parts.Pairwise fun a b => a.stop ≤ b.start :=
  (pairwise_elementsIn n 0 n.start n.trees).sublist List.filter_sublist

/-- What is finished in a node before a place inside one of its children is what comes before that child. -/
theorem takeWhile_children {n c : Node} {i place : Nat} (here : n.parts[i]? = some (.node c))
    (after : c.start ≤ place) (before : place < c.stop) :
    n.children.takeWhile (·.stop ≤ place) = (n.parts.take i).filterMap Element.node? := by
  have split : n.parts = n.parts.take i ++ .node c :: n.parts.drop (i + 1) := by
    obtain ⟨bound, same⟩ := List.getElem?_eq_some_iff.mp here
    rw [← same, List.getElem_cons_drop, List.take_append_drop]
  have order := n.pairwise_parts
  rw [split, List.pairwise_append] at order
  have finished : ∀ d ∈ (n.parts.take i).filterMap Element.node?, decide (d.stop ≤ place) = true := by
    intro d member
    obtain ⟨e, among, isNode⟩ := List.mem_filterMap.mp member
    cases e with
    | leaf l => cases isNode
    | node d =>
      cases isNode
      have ends : d.stop ≤ c.start := order.2.2 _ among _ (List.mem_cons_self ..)
      exact decide_eq_true (Nat.le_trans ends after)
  rw [children_eq_parts]
  conv_lhs => rw [split]
  rw [List.filterMap_append, List.filterMap_cons, List.takeWhile_append_of_pos finished, Element.node?,
    List.takeWhile_cons_of_neg (by simpa using before), List.append_nil]

theorem bounds_of_part {n c : Node} {i : Nat} (here : n.parts[i]? = some (.node c)) :
    n.start ≤ c.start ∧ c.stop ≤ n.stop :=
  bounds_of_mem_elementsIn (List.mem_filter.mp (List.mem_of_getElem? here)).1

theorem shaped_of_part {shape : Kind → List Tree → Prop} {n c : Node} {i : Nat}
    (shaped : (Tree.node n.kind n.trees).Shaped shape) (here : n.parts[i]? = some (.node c)) :
    (Tree.node c.kind c.trees).Shaped shape := by
  have tree := (mem_elementsIn (List.mem_filter.mp (List.mem_of_getElem? here)).1).1
  exact Tree.shapedAll_iff.mp shaped.2 _ tree

/-- Elements with one outline are both nodes of one kind, or both tokens of one kind. -/
theorem cases_of_outline {e e' : Element} (same : e.outline = e'.outline) :
    (∃ c d, e = .node c ∧ e' = .node d ∧ c.kind = d.kind ∧ Tree.outlineOf c.trees = Tree.outlineOf d.trees) ∨
      ∃ l l', e = .leaf l ∧ e' = .leaf l' ∧ l.kind = l'.kind := by
  cases e with
  | node c =>
    cases e' with
    | node d => exact Or.inl ⟨c, d, rfl, rfl, Outline.node.inj same⟩
    | leaf l => cases same
  | leaf l =>
    cases e' with
    | node d => cases same
    | leaf l' => exact Or.inr ⟨l, l', rfl, rfl, Outline.token.inj same⟩

/-- Trees with one outline have as many tokens. -/
theorem length_words {n m : Node} (same : Tree.outlineOf n.trees = Tree.outlineOf m.trees) :
    n.words.length = m.words.length := by
  induction n using children_induction generalizing m with
  | step n ih =>
    rw [outlineOf_trees, outlineOf_trees] at same
    have parts := (List.forall₂_and_left _ _).mpr
      ⟨fun e (member : e ∈ n.parts) => member, forall₂_of_map_eq same⟩
    have lengths : n.parts.map (·.words.length) = m.parts.map (·.words.length) := by
      refine map_eq_of_forall₂ parts fun e e' related => ?_
      obtain ⟨member, outlines⟩ := related
      rcases cases_of_outline outlines with ⟨c, d, rfl, rfl, _, trees⟩ | ⟨l, l', rfl, rfl, _⟩
      · exact ih c (mem_children_of_parts member) trees
      · rfl
    simp only [words_eq, List.length_flatMap, lengths]

end Node

/-! Trees that match -/

/-- Whether a node is the use of a name. -/
def Kind.isUse (kind : Kind) : Bool :=
  kind == .referenceExpr || kind == .typeReference

/-- The second token is written like the first, unless that is a name in use. -/
def Leaf.Agrees (l l' : Leaf) : Prop :=
  l.parent.kind.isUse = false → l'.text = l.text

section

variable (R : Leaf → Leaf → Prop)

/-- Nodes with one outline, whose tokens are related one by one. -/
structure Node.Matches (n m : Node) : Prop where
  kind : n.kind = m.kind
  outline : Tree.outlineOf n.trees = Tree.outlineOf m.trees
  words : List.Forall₂ R n.words m.words

/-- Elements of matching nodes in the same place. -/
inductive Element.Matches : Element → Element → Prop
  | node {c d : Node} : c.Matches R d → Matches (.node c) (.node d)
  | leaf {l l' : Leaf} : l.kind = l'.kind → R l l' → Matches (.leaf l) (.leaf l')

/-- The root of a parsed file. -/
structure Node.IsFile (r : Node) : Prop where
  top : r.parent = none
  quotes : (Tree.node r.kind r.trees).Shaped Grammar.QuotesPath

/-- Nodes in the same place of files that match. -/
inductive Node.Twins : Node → Node → Prop
  | root {r s : Node} : r.IsFile → s.IsFile → r.Matches R s → Twins r s
  | child {n m c d : Node} {i : Nat} : Twins n m → n.parts[i]? = some (.node c) → m.parts[i]? = some (.node d) →
      Twins c d

end

namespace Node

variable {R S : Leaf → Leaf → Prop} {n m : Node}

theorem Matches.imp (weaker : ∀ l l', R l l' → S l l') (same : n.Matches R m) : n.Matches S m :=
  ⟨same.kind, same.outline, same.words.imp weaker⟩

theorem matches_refl (reflexive : ∀ l, R l l) (n : Node) : n.Matches R n :=
  ⟨rfl, rfl, List.forall₂_same.mpr fun l _ => reflexive l⟩

/-- Matching nodes match part by part. -/
theorem Matches.parts (same : n.Matches R m) : List.Forall₂ (Element.Matches R) n.parts m.parts := by
  have outlines := same.outline
  have words := same.words
  rw [outlineOf_trees, outlineOf_trees] at outlines
  rw [words_eq, words_eq] at words
  have lengths (e e' : Element) (equal : e.outline = e'.outline) : e.words.length = e'.words.length := by
    rcases cases_of_outline equal with ⟨c, d, rfl, rfl, _, trees⟩ | ⟨l, l', rfl, rfl, _⟩
    · exact length_words trees
    · rfl
  refine (forall₂_flatMap (forall₂_of_map_eq outlines) lengths words).imp fun e e' related => ?_
  obtain ⟨equal, inside⟩ := related
  rcases cases_of_outline equal with ⟨c, d, rfl, rfl, kinds, trees⟩ | ⟨l, l', rfl, rfl, kinds⟩
  · exact .node ⟨kinds, trees, inside⟩
  · cases inside with
    | cons spelled => exact .leaf kinds spelled

theorem Matches.part (same : n.Matches R m) {i : Nat} {e : Element} (here : n.parts[i]? = some e) :
    ∃ e', m.parts[i]? = some e' ∧ e.Matches R e' := by
  obtain ⟨bound, rfl⟩ := List.getElem?_eq_some_iff.mp here
  have bound' : i < m.parts.length := same.parts.length_eq ▸ bound
  exact ⟨m.parts[i], List.getElem?_eq_getElem bound', same.parts.get bound bound'⟩

namespace Twins

theorem matches_of_twins (twins : n.Twins R m) : n.Matches R m := by
  induction twins with
  | root _ _ same => exact same
  | child _ left right ih =>
    obtain ⟨e, here, same⟩ := ih.part left
    cases right.symm.trans here
    cases same with
    | node inside => exact inside

theorem kind_eq (twins : n.Twins R m) : n.kind = m.kind :=
  twins.matches_of_twins.kind

/-- The nodes among the parts of twins are twins. -/
theorem parts (twins : n.Twins R m) :
    List.Forall₂ (fun e e' => Option.Rel (Twins R) e.node? e'.node?) n.parts m.parts := by
  have same := twins.matches_of_twins.parts
  refine List.forall₂_of_length_eq_of_get same.length_eq fun i left right => ?_
  have here := same.get left right
  have atLeft := List.getElem?_eq_getElem left
  have atRight := List.getElem?_eq_getElem right
  rw [List.get_eq_getElem, List.get_eq_getElem] at here ⊢
  revert here atLeft atRight
  generalize n.parts[i] = e
  generalize m.parts[i] = e'
  intro here atLeft atRight
  cases here with
  | node => exact .some (.child twins atLeft atRight)
  | leaf => exact .none

theorem children (twins : n.Twins R m) : List.Forall₂ (Twins R) n.children m.children := by
  rw [children_eq_parts, children_eq_parts]
  exact List.rel_filterMap (fun _ _ related => related) twins.parts

theorem childrenWhere (twins : n.Twins R m) (p : Kind → Bool) :
    List.Forall₂ (Twins R) (n.childrenWhere p) (m.childrenWhere p) :=
  List.rel_filter (fun _ _ inner => Iff.of_eq (congrArg (p · = true) inner.kind_eq)) twins.children

theorem childWhere (twins : n.Twins R m) (p : Kind → Bool) :
    Option.Rel (fun c d => c.Twins R d ∧ p c.kind = true) (n.childWhere p) (m.childWhere p) :=
  rel_find? twins.children fun _ _ inner => by rw [inner.kind_eq]

/-- The first tokens of a kind in twins are related. -/
theorem token (twins : n.Twins R m) {kind : Kind} (significant : kind.isTrivia = false) :
    Option.Rel (fun l l' => (R l l' ∧ l.kind = l'.kind ∧ l.parent = n) ∧ (l.kind == kind) = true)
      (n.token kind) (m.token kind) := by
  have parts := (List.forall₂_and_left _ _).mpr
    ⟨fun e (member : e ∈ n.parts) => member, twins.matches_of_twins.parts⟩
  have leaves : List.Forall₂ (fun l l' => R l l' ∧ l.kind = l'.kind ∧ l.parent = n)
      (n.parts.filterMap Element.leaf?) (m.parts.filterMap Element.leaf?) := by
    refine List.rel_filterMap (fun e e' related => ?_) parts
    obtain ⟨member, same⟩ := related
    cases same with
    | node => exact .none
    | leaf kinds spelled =>
      exact .some ⟨spelled, kinds, parent_of_mem_elementsIn (List.mem_filter.mp member).1⟩
  rw [token_eq_parts n significant, token_eq_parts m significant]
  exact rel_find? leaves fun _ _ same => congrArg (· == kind) same.2.1

theorem quotes_left (twins : n.Twins R m) : (Tree.node n.kind n.trees).Shaped Grammar.QuotesPath := by
  induction twins with
  | root file _ _ => exact file.quotes
  | child _ here _ ih => exact shaped_of_part ih here

theorem quotes_right (twins : n.Twins R m) : (Tree.node m.kind m.trees).Shaped Grammar.QuotesPath := by
  induction twins with
  | root _ file _ => exact file.quotes
  | child _ _ here ih => exact shaped_of_part ih here

/-- Each node of a whole tree has a twin in one that matches. -/
theorem exists_of_mem_descendants {r s : Node} (roots : r.Twins R s) (member : n ∈ r.descendants) :
    ∃ m ∈ s.descendants, n.Twins R m := by
  induction mem_descendants_iff_below.mp member with
  | root => exact ⟨s, self_mem_descendants s, roots⟩
  | @child p c above child ih =>
    obtain ⟨q, inside, twins⟩ := ih (mem_descendants_iff_below.mpr above)
    obtain ⟨i, here⟩ := List.mem_iff_getElem?.mp (mem_parts_of_children child)
    obtain ⟨e, there, same⟩ := twins.matches_of_twins.part here
    cases same with
    | @node _ d _ =>
      have among := mem_children_of_parts (List.mem_of_getElem? there)
      exact ⟨d, child_mem_descendants inside among, .child twins here there⟩

end Twins

end Node

end GoNav
