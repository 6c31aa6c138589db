import GoNav.Kind

namespace GoNav

/-- A lexical token: its kind, its text, and the byte offset at which it starts. -/
structure Token where
  kind : Kind
  text : String
  start : Nat
  deriving DecidableEq, Repr

namespace Token

/-- The byte offset just behind the token. -/
def stop (t : Token) : Nat :=
  t.start + t.text.utf8ByteSize

/-- A blank or comment that spans a line break. -/
def hasNewline (t : Token) : Bool :=
  t.kind.isTrivia && t.text.toList.contains '\n'

end Token

end GoNav
