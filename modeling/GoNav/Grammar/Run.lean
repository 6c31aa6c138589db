import GoNav.Grammar.Rules
import GoNav.Tree

namespace GoNav.Grammar

/-- Where a parse stands among the tokens of its file, and what it has objected to so far. -/
structure Cursor where
  /-- Blanks and comments before the next significant token that are not yet in the tree. -/
  pending : List Token
  /-- The significant tokens ahead. -/
  ahead : List Lexeme
  /-- Blanks and comments behind the last significant token of the file. -/
  trailing : List Token
  /-- The kind of the last significant token taken. -/
  before : Option Kind
  inHeader : Bool
  errors : List SyntaxError
  /-- The byte offset of the end of the file. -/
  stop : Nat

namespace Cursor

def view (c : Cursor) : View where
  ahead := c.ahead
  before := c.before
  endNewline := c.trailing.any Token.hasNewline
  inHeader := c.inHeader

/-- The blanks and comments between here and the next significant token or the end of the file. -/
def leadOf (ahead : List Lexeme) (trailing : List Token) : List Token :=
  (ahead.head?.map Lexeme.lead).getD trailing

/-- Goes on behind the blanks and comments ahead. -/
def skip (c : Cursor) : Cursor :=
  { c with pending := [] }

/-- The next significant token, with the blanks and comments before it. -/
def upcoming (c : Cursor) : List Token :=
  c.pending ++ (c.ahead.head?.map Lexeme.token).toList

/-- Goes on behind the next significant token. -/
def advance (c : Cursor) : Cursor :=
  match c.ahead with
  | [] => c.skip
  | l :: rest =>
    { c with
      ahead := rest
      pending := leadOf rest c.trailing
      before := some l.kind }

/-- Reports an error at the next significant token, or at the end of the file. -/
def report (c : Cursor) (cause : SyntaxError.Cause) : Cursor :=
  let place := (c.ahead.head?.map fun l => (l.token.start, l.token.stop)).getD (c.stop, c.stop)
  { c with errors := c.errors ++ [⟨cause, place.1, place.2⟩] }

def ofTokens (tokens : List Token) : Cursor :=
  let input := Input.ofTokens tokens
  { pending := leadOf input.lexemes input.trailing
    ahead := input.lexemes
    trailing := input.trailing
    before := none
    inHeader := false
    errors := []
    stop := (tokens.getLast?.map Token.stop).getD 0 }

end Cursor

/-- A parse in progress: its place, and the children of the node being built, or those since the
mark. -/
structure State extends Cursor where
  built : List Tree

namespace State

def leaf (t : Token) : Tree :=
  .token t.kind t.text

/-- Adds the blanks and comments ahead. -/
def flush (s : State) : State :=
  ⟨s.skip, s.built ++ s.pending.map leaf⟩

/-- Adds the next significant token, with the blanks and comments before it. -/
def bump (s : State) : State :=
  ⟨s.advance, s.built ++ s.upcoming.map leaf⟩

def report (s : State) (cause : SyntaxError.Cause) : State :=
  ⟨s.toCursor.report cause, s.built⟩

def ofTokens (tokens : List Token) : State :=
  ⟨.ofTokens tokens, []⟩

end State

/-- Does a step again as long as it answers yes, at most `n` times. -/
def iterate (step : State → Bool × State) : Nat → State → Bool × State
  | 0, s => (false, s)
  | n + 1, s =>
    match step s with
    | (true, s') => iterate step n s'
    | (false, s') => (false, s')

/-- Does an action, given what following a rule does. A loop takes a significant token each time
round, so it ends before it has gone round more often than tokens are ahead. -/
def Action.run (follow : Rule → State → Bool × State) : Action → State → Bool × State
  | .answer value, s => (value, s)
  | .ask look, s => (look.holds s.view, s)
  | .seq first second, s => second.run follow (first.run follow s).2
  | .branch question yes no, s =>
    match question.run follow s with
    | (true, s') => yes.run follow s'
    | (false, s') => no.run follow s'
  | .bump, s => (true, s.bump)
  | .node kind inner, s =>
    let done := inner.run follow { s.flush with built := [] }
    (done.1, { done.2 with built := s.flush.built ++ [.node kind done.2.built] })
  | .marked inner, s =>
    let done := inner.run follow { s.flush with built := [] }
    (done.1, { done.2 with built := s.flush.built ++ done.2.built })
  | .wrap kind inner, s =>
    let done := inner.run follow s
    (done.1, { done.2 with built := [.node kind done.2.built] })
  | .fail cause, s => (false, s.report cause)
  | .header inside inner, s =>
    let done := inner.run follow { s with inHeader := inside }
    (done.1, { done.2 with inHeader := s.inHeader })
  | .moves inner, s =>
    let s' := (inner.run follow s).2
    (s'.ahead.length != s.ahead.length, s')
  | .loop inner, s => iterate (inner.run follow) (s.ahead.length + 1) s
  | .call rule, s => follow rule s

/-- Follows a rule, through at most `depth` rules that follow one another inward. -/
def Rule.run (depth : Nat) (rule : Rule) (s : State) : Bool × State :=
  match depth with
  | 0 => (false, s)
  | n + 1 => rule.body.run (Rule.run n) s

end GoNav.Grammar
