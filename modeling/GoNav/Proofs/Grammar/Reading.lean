import GoNav.Proofs.Grammar.Stable

namespace GoNav

theorem Tree.leavesOf_append (ts us : List Tree) :
    Tree.leavesOf (ts ++ us) = Tree.leavesOf ts ++ Tree.leavesOf us := by
  induction ts with
  | nil => rfl
  | cons t rest ih => simp only [List.cons_append, Tree.leavesOf, ih, List.append_assoc]

/-- What a token leaves in a tree. -/
def Token.written (t : Token) : Kind × String :=
  (t.kind, t.text)

namespace Grammar

/-- The tokens that a lexeme stands for. -/
def Lexeme.tokens (l : Lexeme) : List Token :=
  l.lead ++ [l.token]

/-- The tokens that are not yet in the tree, blanks and comments included. -/
def Cursor.unread (c : Cursor) : List Token :=
  match c.ahead with
  | [] => c.pending
  | l :: rest => c.pending ++ l.token :: (rest.flatMap Lexeme.tokens ++ c.trailing)

namespace Cursor

theorem leadOf_append (ahead : List Lexeme) (trailing : List Token) :
    (match ahead with
      | [] => leadOf ahead trailing
      | l :: rest => leadOf ahead trailing ++ l.token :: (rest.flatMap Lexeme.tokens ++ trailing)) =
      ahead.flatMap Lexeme.tokens ++ trailing := by
  cases ahead with
  | nil => rfl
  | cons l rest => simp [leadOf, Lexeme.tokens]

theorem pending_append_unread_skip (c : Cursor) : c.pending ++ c.skip.unread = c.unread := by
  cases ahead : c.ahead <;> simp [unread, skip, ahead]

theorem upcoming_append_unread_advance (c : Cursor) :
    c.upcoming ++ c.advance.unread = c.unread := by
  cases ahead : c.ahead with
  | nil => simp [upcoming, advance, unread, skip, ahead]
  | cons l rest =>
    have lead := leadOf_append rest c.trailing
    simp only [unread, upcoming, advance, ahead, List.head?_cons, Option.map_some, Option.toList_some,
      List.append_assoc, List.cons_append, List.nil_append]
    rw [lead]

theorem unread_ofTokens (tokens : List Token) : (ofTokens tokens).unread = tokens := by
  have grouped : ∀ lead, (Input.group lead tokens).lexemes.flatMap Lexeme.tokens ++
      (Input.group lead tokens).trailing = lead ++ tokens := by
    induction tokens with
    | nil => intro lead; simp [Input.group]
    | cons t rest ih =>
      intro lead
      unfold Input.group
      split
      · rw [ih (lead ++ [t])]
        simp
      · have later := ih []
        simp only [List.nil_append] at later
        simp only [List.flatMap_cons, List.append_assoc, later, Lexeme.tokens, List.cons_append,
          List.nil_append]
  have lead := leadOf_append (Input.ofTokens tokens).lexemes (Input.ofTokens tokens).trailing
  rw [Input.ofTokens, grouped []] at lead
  exact lead

end Cursor

namespace State

theorem leavesOf_leaf (tokens : List Token) :
    Tree.leavesOf (tokens.map leaf) = tokens.map Token.written := by
  induction tokens with
  | nil => rfl
  | cons t rest ih => simp [Tree.leavesOf, Tree.leaves, leaf, Token.written, ih]

/-- All tokens of a parse: those that are in the tree, and those that are not. -/
def contents (s : State) : List (Kind × String) :=
  Tree.leavesOf s.built ++ s.unread.map Token.written

theorem contents_flush (s : State) : s.flush.contents = s.contents := by
  simp only [contents, flush, Tree.leavesOf_append, leavesOf_leaf, List.append_assoc,
    ← List.map_append, Cursor.pending_append_unread_skip]

theorem contents_bump (s : State) : s.bump.contents = s.contents := by
  simp only [contents, bump, Tree.leavesOf_append, leavesOf_leaf, List.append_assoc,
    ← List.map_append, Cursor.upcoming_append_unread_advance]

end State

/-- How a parse goes on: no token is lost or repeated, and no token comes back. -/
structure Reads (s t : State) : Prop where
  contents : t.contents = s.contents
  ahead : t.ahead <:+ s.ahead

theorem State.bump_ahead (s : State) : s.bump.ahead = s.ahead.tail := by
  cases ahead : s.ahead <;> simp [bump, Cursor.advance, Cursor.skip, ahead]

theorem reads_stable : Stable Reads where
  refl s := ⟨rfl, List.suffix_refl _⟩
  trans first second := ⟨second.contents.trans first.contents, second.ahead.trans first.ahead⟩
  bump s := ⟨s.contents_bump, s.bump_ahead ▸ List.tail_suffix _⟩
  report s cause := ⟨rfl, List.suffix_refl _⟩
  node {s t} kind inner := by
    refine ⟨?_, inner.ahead⟩
    rw [← s.contents_flush]
    have same := inner.contents
    simp only [State.contents, Tree.leavesOf_append, Tree.leavesOf, Tree.leaves, List.append_nil,
      List.nil_append, List.append_assoc] at same ⊢
    rw [same]
  marked {s t} inner := by
    refine ⟨?_, inner.ahead⟩
    rw [← s.contents_flush]
    have same := inner.contents
    simp only [State.contents, Tree.leavesOf_append, Tree.leavesOf, List.nil_append,
      List.append_assoc] at same ⊢
    rw [same]
  wrap {s t} kind inner := by
    refine ⟨?_, inner.ahead⟩
    rw [← inner.contents]
    simp only [State.contents, Tree.leavesOf, Tree.leaves, List.append_nil]
  header inside inner := ⟨inner.contents, inner.ahead⟩

end Grammar

end GoNav
