import GoNav.Token

namespace GoNav.Token

/-- The number of characters up to and including the first `*/`. -/
def toCommentEnd : List Char → Option Nat
  | '*' :: '/' :: _ => some 2
  | _ :: rest => (toCommentEnd rest).map (· + 1)
  | [] => none

/-- What matches the beginning of a text against patterns. It is asked at the first character of each
token, and tells how many characters behind that one belong to the token: with the kind of the pattern
where one is matched, and without a kind where none is. -/
structure Engine where
  match? (c : Char) (rest : List Char) : Option (Kind × Nat)
  skip (c : Char) (rest : List Char) : Nat

namespace Engine

/-- The kind of the token that starts with `c`, and how many characters it takes of the rest. Of a
block comment only the beginning is matched; it goes on to its end, and has to have one. -/
def next (e : Engine) (c : Char) (rest : List Char) : Kind × Nat :=
  match e.match? c rest with
  | none => (.error, e.skip c rest)
  | some (kind, n) =>
    if kind = .blockComment then
      match toCommentEnd (rest.drop n) with
      | some more => (.blockComment, n + more)
      | none => (.error, n)
    else (kind, n)

/-- The tokens of a text of which the first `skip` characters belong to a token already read, for a
text whose remaining part starts at the byte offset `start`. -/
def scanFrom (e : Engine) (start skip : Nat) : List Char → List Token
  | [] => []
  | c :: rest =>
    match skip with
    | n + 1 => e.scanFrom start n rest
    | 0 =>
      let (kind, n) := e.next c rest
      let text := String.ofList (c :: rest.take n)
      { kind, text, start } :: e.scanFrom (start + text.utf8ByteSize) n rest

/-- The tokens of a text, blanks and comments included. -/
def scan (e : Engine) (text : String) : List Token :=
  e.scanFrom 0 0 text.toList

end Engine

end GoNav.Token
