import GoNav.Parse
import GoNav.Proofs.Grammar.Assembling
import GoNav.Proofs.Grammar.Progress
import GoNav.Proofs.Token.Scanning

namespace GoNav.Parse

open Grammar

/-- A parse of a file, before the blanks and comments at its end are added. -/
def finalState (tokens : List Token) : State :=
  (Rule.sourceFile.run (rulesPerToken * (tokens.length + 1)) (.ofTokens tokens)).2

theorem ofTokens_tree (tokens : List Token) :
    (ofTokens tokens).tree = .node .sourceFile (finalState tokens).flush.built :=
  rfl

theorem ahead_finalState (tokens : List Token) : (finalState tokens).ahead = [] := by
  have depth : rulesPerToken * (tokens.length + 1) = rulesPerToken * tokens.length + 47 + 1 := by
    simp only [rulesPerToken]
    omega
  rw [finalState, depth]
  exact ahead_sourceFile (reads_stable.rule _) _

theorem contents_ofTokens (tokens : List Token) :
    (State.ofTokens tokens).contents = tokens.map Token.written := by
  have unread := Cursor.unread_ofTokens tokens
  simp only [State.contents, State.ofTokens, Tree.leavesOf, List.nil_append, unread]

/-- The leaves of the tree are the tokens, each once and in their order. -/
theorem leaves_ofTokens (tokens : List Token) :
    (ofTokens tokens).tree.leaves = tokens.map Token.written := by
  have reads := reads_stable.rule (rulesPerToken * (tokens.length + 1)) .sourceFile (.ofTokens tokens)
  have flushed : (finalState tokens).flush.unread = [] := by
    simp only [State.flush, Cursor.unread, Cursor.skip, ahead_finalState]
  have contents : (finalState tokens).flush.contents = tokens.map Token.written := by
    rw [State.contents_flush, ← contents_ofTokens]
    exact reads.contents
  rw [State.contents, flushed, List.map_nil, List.append_nil] at contents
  exact contents

theorem leaves_ofText (text : String) :
    (ofText text).tree.leaves = (Token.scan text).map Token.written :=
  leaves_ofTokens _

/-- The calls of a builder put together the tree of the parse, without a fault. -/
theorem assemble_ofTokens (tokens : List Token) :
    assemble tokens = some (ofTokens tokens).tree := by
  have marks : Marks none (Builder.empty.startNode .sourceFile) := .startNode _ (by simp)
  have start : (⟨.ofTokens tokens, Builder.empty.startNode .sourceFile⟩ : Assembly) =
      (State.ofTokens tokens).above (Builder.empty.startNode .sourceFile) := by
    simp [State.above, State.ofTokens]
  have done := Rule.assemble_eq (rulesPerToken * (tokens.length + 1)) .sourceFile _ marks
    (.ofTokens tokens)
  rw [assemble, start]
  simp only [done, Option.bind_some, State.flush_above, State.finishNode_above]
  rfl

/-- A text of any shape has a tree with a single root for the file. The calls that build it open and
close nodes in balance, each checkpoint is still valid where a node is opened from it, and the leaves of
the tree are the tokens of the text, each once and in their order. Hence the tree covers the text. -/
theorem lossless (text : String) :
    assemble (Token.scan text) = some (ofText text).tree ∧
      (∃ children, (ofText text).tree = .node .sourceFile children) ∧
      (ofText text).tree.leaves = (Token.scan text).map (fun t => (t.kind, t.text)) ∧
      (ofText text).tree.text = text := by
  refine ⟨assemble_ofTokens _, ⟨_, ofTokens_tree _⟩, leaves_ofText text, ?_⟩
  rw [Tree.text, leaves_ofText, List.map_map]
  exact Token.engine.join_texts_scan text

end GoNav.Parse
