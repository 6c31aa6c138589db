import GoNav.Proofs.Grammar.Shape
import GoNav.Proofs.Losslessness
import GoNav.Proofs.Node.Near
import GoNav.Proofs.Node.Order

namespace GoNav

/-- Where no two entries have one key, an entry is found under its key. -/
theorem lookup_of_mem {α β : Type} [BEq α] [LawfulBEq α] {entries : List (α × β)} {entry : α × β}
    (distinct : (entries.map Prod.fst).Nodup) (member : entry ∈ entries) :
    entries.lookup entry.1 = some entry.2 := by
  obtain ⟨before, behind, split⟩ := List.append_of_mem member
  refine List.lookup_eq_some_iff.mpr ⟨before, behind, split, ?_⟩
  intro other earlier
  rw [split, List.map_append, List.nodup_append] at distinct
  have different := distinct.2.2 other.1 (List.mem_map_of_mem earlier) entry.1 (by simp)
  simpa using Ne.symm different

namespace SourceFile

theorem tree_root (f : SourceFile) : Tree.node f.root.kind f.root.trees = (Parse.ofText f.text).tree := by
  rw [← f.parse_eq]
  obtain ⟨children, tree⟩ : ∃ children, f.parse.tree = .node .sourceFile children := by
    rw [f.parse_eq]
    exact ⟨_, Parse.ofTokens_tree _⟩
  simp [root, Node.root, tree, Tree.kind, Tree.children]

theorem kind_root (f : SourceFile) : f.root.kind = .sourceFile := by
  have kinds := congrArg Tree.kind f.tree_root
  rwa [Parse.ofText, Parse.ofTokens_tree] at kinds

/-- The tokens in the tree of a file are those of its text. -/
theorem exists_token {f : SourceFile} {l : Leaf} (member : l ∈ f.root.leaves) :
    ∃ t ∈ Token.scan f.text, t.kind = l.kind ∧ t.text = l.text := by
  have written : (Parse.ofText f.text).tree.leaves = f.root.leaves.map Leaf.written := by
    rw [← f.tree_root, Tree.leaves, Node.leaves_written]
  rw [Parse.leaves_ofText] at written
  have among := List.mem_map_of_mem (f := Leaf.written) member
  rw [← written] at among
  obtain ⟨t, scanned, same⟩ := List.mem_map.mp among
  exact ⟨t, scanned, congrArg Prod.fst same, congrArg Prod.snd same⟩

theorem start_lt_stop {f : SourceFile} {l : Leaf} (member : l ∈ f.root.leaves) : l.start < l.stop := by
  obtain ⟨t, scanned, _, text⟩ := exists_token member
  obtain ⟨c, rest, _, written⟩ := Token.Engine.exists_next_of_mem_scanFrom scanned
  have size : 0 < l.text.utf8ByteSize := by
    rw [← text, written, Nat.pos_iff_ne_zero, ne_eq, String.utf8ByteSize_eq_zero_iff]
    simp
  rw [Leaf.stop]
  omega

end SourceFile

namespace Workspace

variable {ws : Workspace}

theorem mem_files_of_file? {id : FileId} {f : SourceFile} (found : ws.file? id = some f) :
    (id, f) ∈ ws.files := by
  obtain ⟨before, behind, split, _⟩ := List.lookup_eq_some_iff.mp found
  rw [split]
  simp

theorem file?_of_mem_files {id : FileId} {f : SourceFile} (member : (id, f) ∈ ws.files) :
    ws.file? id = some f :=
  lookup_of_mem ws.distinct member

/-- A node that stands in the tree of a file at hand. -/
def Holds (ws : Workspace) (place : FileNode) : Prop :=
  ∃ f, ws.file? place.file = some f ∧ place.node ∈ f.root.descendants

theorem holds_root {id : FileId} {f : SourceFile} (found : ws.file? id = some f) :
    ws.Holds ⟨id, f.root⟩ :=
  ⟨f, found, Node.self_mem_descendants f.root⟩

namespace Holds

variable {file : FileId} {n : Node}

theorem near {m : Node} (held : ws.Holds ⟨file, n⟩) (near : n.Near m) : ws.Holds ⟨file, m⟩ := by
  obtain ⟨f, found, member⟩ := held
  exact ⟨f, found, near f.root rfl member⟩

/-- Nodes of one file that stand at the same place are the same. -/
theorem eq_of_beq {a b : FileNode} (left : ws.Holds a) (right : ws.Holds b) (same : (a == b) = true) :
    a = b := by
  obtain ⟨fileA, a⟩ := a
  obtain ⟨fileB, b⟩ := b
  obtain ⟨files, paths⟩ := Bool.and_eq_true_iff.mp same
  cases LawfulBEq.eq_of_beq files
  obtain ⟨f, found, memberA⟩ := left
  obtain ⟨g, again, memberB⟩ := right
  cases found.symm.trans again
  have nodes := (Node.mem_descendants_iff_below.mp memberA).eq_of_path_eq rfl
    (Node.mem_descendants_iff_below.mp memberB) (LawfulBEq.eq_of_beq paths)
  cases nodes
  rfl

theorem exists_token {l : Leaf} (held : ws.Holds ⟨file, n⟩) (token : l ∈ n.tokens) :
    ∃ text, ∃ t ∈ Token.scan text, t.kind = l.kind ∧ t.text = l.text := by
  obtain ⟨f, found, member⟩ := held
  exact ⟨f.text, SourceFile.exists_token (Node.mem_leaves.mpr ⟨n, member, token⟩)⟩

/-- The text of a name does not start with a dot. -/
theorem text_of_ident {l : Leaf} (held : ws.Holds ⟨file, n⟩) (token : l ∈ n.tokens)
    (ident : l.kind = .ident) : ∃ c rest, l.text = String.ofList (c :: rest) ∧ c ≠ '.' := by
  obtain ⟨text, t, scanned, kind, same⟩ := held.exists_token token
  rw [← same]
  exact Token.head_of_ident scanned (kind.trans ident)

theorem text_of_dot {l : Leaf} (held : ws.Holds ⟨file, n⟩) (token : l ∈ n.tokens)
    (dot : l.kind = .dot) : l.text = "." := by
  obtain ⟨text, t, scanned, kind, same⟩ := held.exists_token token
  rw [← same]
  exact Token.text_of_dot scanned (kind.trans dot)

/-- The node of an import path holds its quoted path. -/
theorem quoted (held : ws.Holds ⟨file, n⟩) (path : n.kind = .importString) :
    ∃ l ∈ n.tokens, l.kind = .string ∨ l.kind = .rawString := by
  obtain ⟨f, found, member⟩ := held
  have shaped := Parse.quotesPath f.text
  rw [← f.tree_root] at shaped
  obtain ⟨quote, text, trees, isQuote⟩ := Node.shape_of_mem_descendants shaped member path
  obtain ⟨l, token, kind⟩ := Node.exists_token_of_mem_trees (trees ▸ List.mem_singleton_self _)
  exact ⟨l, token, kind ▸ isQuote⟩

/-- Where an offset lies in a token of a node or at its end, that token is the first one there. -/
theorem leavesAt {l : Leaf} {offset : Nat} (held : ws.Holds ⟨file, n⟩) (token : l ∈ n.tokens)
    (after : l.start < offset) (upTo : offset ≤ l.stop) :
    ∃ f rest, ws.file? file = some f ∧ f.root.leavesAt offset = l :: rest := by
  obtain ⟨f, found, member⟩ := held
  obtain ⟨rest, first⟩ := Node.leavesAt_eq_cons (Node.mem_leaves.mpr ⟨n, member, token⟩) after upTo
  exact ⟨f, rest, found, first⟩

end Holds

end Workspace

end GoNav
