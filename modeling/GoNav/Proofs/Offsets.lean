import GoNav.Proofs.Placement
import GoNav.Proofs.Token.Munch

namespace GoNav

/-- Texts with their places, one behind the other. -/
def placeFrom : Nat → List (Kind × String) → List (Kind × String × Nat)
  | _, [] => []
  | start, (kind, text) :: rest => (kind, text, start) :: placeFrom (start + text.utf8ByteSize) rest

/-- The bytes of texts together. -/
def bytesIn : List (Kind × String) → Nat
  | [] => 0
  | (_, text) :: rest => text.utf8ByteSize + bytesIn rest

theorem placeFrom_append (start : Nat) (left right : List (Kind × String)) :
    placeFrom start (left ++ right) = placeFrom start left ++ placeFrom (start + bytesIn left) right := by
  induction left generalizing start with
  | nil => rfl
  | cons first rest ih =>
    rw [List.cons_append, placeFrom, ih, placeFrom, bytesIn, Nat.add_assoc, List.cons_append]

theorem length_placeFrom (start : Nat) (texts : List (Kind × String)) :
    (placeFrom start texts).length = texts.length := by
  induction texts generalizing start with
  | nil => rfl
  | cons first rest ih => rw [placeFrom, List.length_cons, List.length_cons, ih]

theorem bytesIn_append (left right : List (Kind × String)) :
    bytesIn (left ++ right) = bytesIn left + bytesIn right := by
  induction left with
  | nil => exact (Nat.zero_add _).symm
  | cons first rest ih => rw [List.cons_append, bytesIn, ih, bytesIn, Nat.add_assoc]

theorem bytesIn_le_of_suffix {left right : List (Kind × String)} (suffix : left <:+ right) :
    bytesIn left ≤ bytesIn right := by
  obtain ⟨before, rfl⟩ := suffix
  rw [bytesIn_append]
  exact Nat.le_add_left ..

theorem bytesIn_written (tokens : List Token) :
    bytesIn (tokens.map Token.written) = (tokens.map fun t => t.text.utf8ByteSize).sum := by
  induction tokens with
  | nil => rfl
  | cons t rest ih => rw [List.map_cons, List.map_cons, List.sum_cons, ← ih]; rfl

theorem bytesIn_eq (texts : List (Kind × String)) :
    bytesIn texts = (String.join (texts.map Prod.snd)).utf8ByteSize := by
  induction texts with
  | nil => rfl
  | cons first rest ih =>
    rw [bytesIn, ih, List.map_cons, String.join_cons, String.utf8ByteSize_append]

namespace Token

theorem bytesIn_scan (text : String) : bytesIn ((scan text).map written) = text.utf8ByteSize := by
  rw [bytesIn_eq, List.map_map]
  exact congrArg String.utf8ByteSize (engine.join_texts_scan text)

/-- From where a token starts, the rest of the text is that token and those behind it. -/
theorem start_add_bytesIn {text : String} {before behind : List Token} {t : Token}
    (split : scan text = before ++ t :: behind) :
    t.start + bytesIn ((t :: behind).map written) = text.utf8ByteSize := by
  rw [(Engine.scanFrom_split split).1, ← bytesIn_written, ← bytesIn_scan, split, List.map_append, bytesIn_append,
    Nat.zero_add]

end Token

mutual

theorem Tree.bytes_eq (t : Tree) : t.bytes = bytesIn t.leaves := by
  cases t with
  | token kind text => rfl
  | node kind children => rw [Tree.bytes, Tree.leaves, Tree.bytesOf_eq]

theorem Tree.bytesOf_eq (trees : List Tree) : Tree.bytesOf trees = bytesIn (Tree.leavesOf trees) := by
  cases trees with
  | nil => rfl
  | cons t rest => rw [Tree.bytesOf, Tree.leavesOf, Tree.bytes_eq t, Tree.bytesOf_eq rest, bytesIn_append]

end

def Leaf.placed (l : Leaf) : Kind × String × Nat :=
  (l.kind, l.text, l.start)

namespace Node

theorem placed_elementsIn {parent : Node} {index start : Nat} {trees : List Tree}
    (inside : ∀ c, .node c ∈ elementsIn parent index start trees →
      c.leaves.map Leaf.placed = placeFrom c.start (Tree.leavesOf c.trees)) :
    ((elementsIn parent index start trees).flatMap Element.leaves).map Leaf.placed =
      placeFrom start (Tree.leavesOf trees) := by
  induction trees generalizing index start with
  | nil => rfl
  | cons t rest ih =>
    simp only [elementsIn, List.flatMap_cons, List.map_append, Tree.leavesOf, placeFrom_append]
    rw [← Tree.bytes_eq, ih fun c member => inside c (List.mem_cons_of_mem _ member)]
    congr 1
    cases t with
    | token kind text => rfl
    | node kind trees => exact inside _ (List.mem_cons_self ..)

theorem placed_leaves (n : Node) : n.leaves.map Leaf.placed = placeFrom n.start (Tree.leavesOf n.trees) := by
  induction n using children_induction with
  | step n ih =>
    rw [leaves_eq]
    exact placed_elementsIn fun c member => ih c (mem_children.mpr member)

/-- A token of a tree stands behind the tokens before it. -/
theorem start_of_leaves {n : Node} {l : Leaf} {before behind : List Leaf}
    (split : n.leaves = before ++ l :: behind) : l.start = n.start + bytesIn (before.map Leaf.written) := by
  have placed := n.placed_leaves
  rw [← leaves_written, split, List.map_append, List.map_append, placeFrom_append] at placed
  have lengths : (before.map Leaf.placed).length = (placeFrom n.start (before.map Leaf.written)).length := by
    rw [length_placeFrom, List.length_map, List.length_map]
  obtain ⟨first, _⟩ := List.cons.inj (List.append_inj placed lengths).2
  exact congrArg (·.2.2) first

end Node

namespace SourceFile

variable {f : SourceFile} {l : Leaf}

theorem leaves_written (f : SourceFile) :
    f.root.leaves.map Leaf.written = (Token.scan f.text).map Token.written := by
  rw [Node.leaves_written, ← Parse.leaves_ofText, ← f.tree_root, Tree.leaves]

/-- A token of the tree of a file stands where it stands in the text. -/
theorem exists_token_at (member : l ∈ f.root.leaves) :
    ∃ t ∈ Token.scan f.text, t.kind = l.kind ∧ t.text = l.text ∧ t.start = l.start := by
  obtain ⟨before, behind, split⟩ := List.append_of_mem member
  have written := f.leaves_written
  rw [split, List.map_append, eq_comm, List.map_eq_append_iff] at written
  obtain ⟨head, rest, tokens, left, right⟩ := written
  obtain ⟨t, tail, rfl, same, _⟩ := List.map_eq_cons_iff.mp right
  refine ⟨t, by simp [tokens], congrArg Prod.fst same, congrArg Prod.snd same, ?_⟩
  rw [(Token.Engine.scanFrom_split tokens).1, ← bytesIn_written, left, Node.start_of_leaves split]
  rfl

/-- No two tokens of a file start in one place. -/
theorem nodup_starts (f : SourceFile) : (f.root.leaves.map Leaf.start).Nodup := by
  refine List.pairwise_map.mpr (f.root.pairwise_leaves.imp_of_mem fun first _ order => ?_)
  have := start_lt_stop first
  omega

theorem join_leaves (f : SourceFile) : String.join (f.root.leaves.map Leaf.text) = f.text := by
  have texts : f.root.leaves.map Leaf.text = (Token.scan f.text).map Token.text := by
    have written := congrArg (List.map Prod.snd) f.leaves_written
    rwa [List.map_map, List.map_map] at written
  rw [texts]
  exact Token.engine.join_texts_scan _

/-- A token of a file is written there. -/
theorem bytes_of_leaf (member : l ∈ f.root.leaves) :
    f.text.toByteArray.extract l.start l.stop = l.text.toByteArray := by
  obtain ⟨before, behind, split⟩ := List.append_of_mem member
  have start : l.start = (String.join (before.map Leaf.text)).utf8ByteSize := by
    rw [Node.start_of_leaves split, bytesIn_eq, List.map_map]
    exact Nat.zero_add _
  have text : f.text = String.join (before.map Leaf.text) ++ l.text ++ String.join (behind.map Leaf.text) := by
    rw [← f.join_leaves, split, List.map_append, String.join_append, List.map_cons, String.join_cons,
      String.append_assoc]
  rw [text, String.toByteArray_append, ByteArray.extract_append, String.toByteArray_append,
    ByteArray.extract_append_eq_right (by rw [start, String.size_toByteArray])
      (by rw [Leaf.stop, start, String.size_toByteArray, String.size_toByteArray])]
  simp [Leaf.stop, start, ← String.size_toByteArray]

theorem stop_root (f : SourceFile) : f.root.stop = f.text.utf8ByteSize := by
  rw [← f.join_leaves, Node.stop, Tree.bytesOf_eq, ← Node.leaves_written, bytesIn_eq, List.map_map]
  exact Nat.zero_add _

end SourceFile

end GoNav
