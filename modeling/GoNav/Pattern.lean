namespace GoNav

/-- Regular expressions over characters. -/
inductive Pattern where
  | never
  | empty
  | one (accepts : Char → Bool)
  | seq (first second : Pattern)
  | alt (left right : Pattern)
  | star (inner : Pattern)

namespace Pattern

/-- The texts that a pattern describes. -/
inductive Matches : Pattern → List Char → Prop
  | empty : Matches .empty []
  | one {accepts : Char → Bool} {c : Char} (accepted : accepts c = true) : Matches (.one accepts) [c]
  | seq {first second : Pattern} {s t : List Char} (left : Matches first s) (right : Matches second t) :
      Matches (.seq first second) (s ++ t)
  | altLeft {left right : Pattern} {s : List Char} (matched : Matches left s) :
      Matches (.alt left right) s
  | altRight {left right : Pattern} {s : List Char} (matched : Matches right s) :
      Matches (.alt left right) s
  | starNil {inner : Pattern} : Matches (.star inner) []
  | starCons {inner : Pattern} {s t : List Char} (head : Matches inner s)
      (tail : Matches (.star inner) t) : Matches (.star inner) (s ++ t)

/-- Whether a pattern describes the empty text. -/
def nullable : Pattern → Bool
  | .never => false
  | .empty => true
  | .one _ => false
  | .seq first second => first.nullable && second.nullable
  | .alt left right => left.nullable || right.nullable
  | .star _ => true

/-- One pattern behind another, with a part that matches nothing or only the empty text removed. -/
def andThen : Pattern → Pattern → Pattern
  | .never, _ => .never
  | .empty, second => second
  | _, .never => .never
  | first, second => .seq first second

/-- Either of two patterns, with a part that matches nothing removed. -/
def orElse : Pattern → Pattern → Pattern
  | .never, right => right
  | left, .never => left
  | left, right => .alt left right

/-- What may follow the character `c` in a text of the pattern. -/
def after (c : Char) : Pattern → Pattern
  | .never => .never
  | .empty => .never
  | .one accepts => if accepts c then .empty else .never
  | .seq first second =>
    if first.nullable then ((first.after c).andThen second).orElse (second.after c)
    else (first.after c).andThen second
  | .alt left right => (left.after c).orElse (right.after c)
  | .star inner => (inner.after c).andThen (.star inner)

/-- The length of the longest beginning of a text that a pattern describes. -/
def longest : Pattern → List Char → Option Nat
  | .never, _ => none
  | p, [] => if p.nullable then some 0 else none
  | p, c :: rest =>
    match (p.after c).longest rest with
    | some n => some (n + 1)
    | none => if p.nullable then some 0 else none

/-- Exactly the character `c`. -/
def char (c : Char) : Pattern :=
  .one (· == c)

/-- Any one of the given characters. -/
def anyOf (cs : String) : Pattern :=
  .one (cs.toList.contains ·)

/-- Any character except the given ones. -/
def noneOf (cs : String) : Pattern :=
  .one (!cs.toList.contains ·)

/-- Exactly the given text. -/
def text (s : String) : Pattern :=
  s.toList.foldr (fun c p => .seq (char c) p) .empty

/-- One pattern after the other. -/
def concat (ps : List Pattern) : Pattern :=
  ps.foldr .seq .empty

/-- Any of the given patterns. -/
def oneOf (ps : List Pattern) : Pattern :=
  ps.foldr .alt .never

/-- At least one text of the pattern, one after the other. -/
def plus (p : Pattern) : Pattern :=
  .seq p (.star p)

/-- A text of the pattern, or nothing. -/
def optional (p : Pattern) : Pattern :=
  .alt .empty p

end Pattern

end GoNav
