import GoNav.Text.FirstByte
import GoNav.Token.Patterns
import GoNav.Token.Scan

namespace GoNav.Token

/-- Of two matches the longer one; of equally long ones the first. -/
def longer : Option (Kind × Nat) → Option (Kind × Nat) → Option (Kind × Nat)
  | none, b => b
  | a, none => a
  | some a, some b => if a.2 < b.2 then some b else some a

/-- What each of some patterns finds at the beginning of a text. -/
def found (entries : List (Kind × Pattern)) (c : Char) (rest : List Char) : List (Option (Kind × Nat)) :=
  entries.map fun entry => ((entry.2.after c).longest rest).map (entry.1, ·)

/-- How far an unreadable token extends: an unfinished string, raw string or character takes what it
would hold if its closing quote came, and anything else is a single character. -/
def unreadable : Pattern :=
  .oneOf
    [.seq (.char '"') (.star stringItem),
     .seq (.char '\x60') (.star (.noneOf "\x60")),
     .seq (.char '\'') (.optional (.seq escape (.star (.noneOf "'\n")))),
     .one fun _ => true]

/-- The engine that takes the longest match, and of equally long ones that of the earlier pattern. A
keyword comes before the identifiers. -/
def byPatterns : Engine where
  match? c rest := (found patterns c rest).foldr longer none
  skip c rest := ((unreadable.after c).longest rest).getD 0

/-- The kind of a token by the character behind it. Words are told apart byte by byte, and a byte that
may start a letter or digit already makes a word an identifier. So no keyword stands before a
character that starts like one, whatever the character is. -/
def settled (kind : Kind) (behind : Option Char) : Kind :=
  if kind.isKeyword && behind.any Text.startsLikeWord then .ident else kind

/-- The engine by which texts are read. -/
def engine : Engine where
  match? c rest := (byPatterns.match? c rest).map fun best => (settled best.1 rest[best.2]?, best.2)
  skip := byPatterns.skip

/-- The tokens of a text, blanks and comments included. -/
def scan (text : String) : List Token :=
  engine.scan text

end GoNav.Token
