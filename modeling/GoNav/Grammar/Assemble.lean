import GoNav.Builder
import GoNav.Grammar.Run

namespace GoNav.Grammar

/-- A parse in progress that puts its tree together with a builder. -/
structure Assembly extends Cursor where
  builder : Builder

namespace Assembly

/-- Adds tokens one after the other. -/
def add (tokens : List Token) (b : Builder) : Builder :=
  tokens.foldl (fun b t => b.token t.kind t.text) b

/-- Adds the blanks and comments ahead. -/
def flush (a : Assembly) : Assembly :=
  ⟨a.skip, add a.pending a.builder⟩

/-- Adds the next significant token, with the blanks and comments before it. -/
def bump (a : Assembly) : Assembly :=
  ⟨a.advance, add a.upcoming a.builder⟩

def startNode (a : Assembly) (kind : Kind) : Assembly :=
  { a with builder := a.builder.startNode kind }

def startNodeAt (a : Assembly) (checkpoint : Nat) (kind : Kind) : Option Assembly :=
  (a.builder.startNodeAt checkpoint kind).map fun b => { a with builder := b }

def finishNode (a : Assembly) : Option Assembly :=
  a.builder.finishNode.map fun b => { a with builder := b }

end Assembly

/-- Does a step again as long as it answers yes, at most `n` times, unless there is a fault. -/
def iterateAssembly (step : Assembly → Option (Bool × Assembly)) :
    Nat → Assembly → Option (Bool × Assembly)
  | 0, a => some (false, a)
  | n + 1, a =>
    (step a).bind fun done =>
      if done.1 then iterateAssembly step n done.2 else some (false, done.2)

/-- Does an action with the calls of a builder, given what following a rule does and the checkpoint
that `wrap` goes back to. There is no result where a call is a fault. -/
def Action.assemble (follow : Rule → Assembly → Option (Bool × Assembly)) :
    Action → Option Nat → Assembly → Option (Bool × Assembly)
  | .answer value, _, a => some (value, a)
  | .ask look, _, a => some (look.holds a.view, a)
  | .seq first second, mark, a =>
    (first.assemble follow mark a).bind fun done => second.assemble follow mark done.2
  | .branch question yes no, mark, a =>
    (question.assemble follow mark a).bind fun done =>
      if done.1 then yes.assemble follow mark done.2 else no.assemble follow mark done.2
  | .bump, _, a => some (true, a.bump)
  | .node kind inner, _, a =>
    (inner.assemble follow none (a.flush.startNode kind)).bind fun done =>
      done.2.finishNode.map (done.1, ·)
  | .marked inner, _, a => inner.assemble follow (some a.flush.builder.checkpoint) a.flush
  | .wrap kind inner, mark, a =>
    mark.bind fun checkpoint =>
      (a.startNodeAt checkpoint kind).bind fun opened =>
        (inner.assemble follow mark opened).bind fun done => done.2.finishNode.map (done.1, ·)
  | .fail cause, _, a => some (false, { a with toCursor := a.report cause })
  | .header inside inner, mark, a =>
    (inner.assemble follow mark { a with inHeader := inside }).map fun done =>
      (done.1, { done.2 with inHeader := a.inHeader })
  | .moves inner, mark, a =>
    (inner.assemble follow mark a).map fun done =>
      (done.2.ahead.length != a.ahead.length, done.2)
  | .loop inner, mark, a => iterateAssembly (inner.assemble follow mark) (a.ahead.length + 1) a
  | .call rule, _, a => follow rule a

/-- Follows a rule, through at most `depth` rules that follow one another inward. A rule sees no
checkpoint but its own. -/
def Rule.assemble (depth : Nat) (rule : Rule) (a : Assembly) : Option (Bool × Assembly) :=
  match depth with
  | 0 => some (false, a)
  | n + 1 => rule.body.assemble (Rule.assemble n) none a

end GoNav.Grammar
