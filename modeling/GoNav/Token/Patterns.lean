import GoNav.Kind
import GoNav.Pattern
import GoNav.Text.Letter
import GoNav.Text.DecimalDigit

namespace GoNav.Token

open Pattern

def digit : Pattern := .one Char.isDigit

/-- A digit or an underscore between digits. -/
def digitOrBar : Pattern := .one fun c => c.isDigit || c == '_'

/-- A letter of any script, or an underscore. -/
def identStart : Pattern := .one fun c => Text.isLetter c || c == '_'

def identRest : Pattern := .one fun c => Text.isLetter c || Text.isDecimalDigit c || c == '_'

def digits : Pattern := .seq digit (.star digitOrBar)

def exponent : Pattern := concat [anyOf "eE", optional (anyOf "+-"), plus digitOrBar]

def hexDigit : Pattern :=
  .one fun c => c.isDigit || ('a' ≤ c && c ≤ 'f') || ('A' ≤ c && c ≤ 'F') || c == '_'

/-- A backslash with the character it escapes. -/
def escape : Pattern := .seq (Pattern.char '\\') (noneOf "\n")

/-- One character of an interpreted string. -/
def stringItem : Pattern := .alt (noneOf "\"\\\n") escape

/-- The tokens that are written in one way only. A block comment is known by its beginning. -/
def fixedSpellings : List (Kind × String) :=
  (.blockComment, "/*") :: Kind.spellings

def fixedPatterns : List (Kind × Pattern) :=
  fixedSpellings.map fun spelled => (spelled.1, Pattern.text spelled.2)

/-- The patterns of the tokens that are written in more than one way. -/
def variedPatterns : List (Kind × Pattern) :=
  [(.whitespace, plus (anyOf " \t\r\n")),
   (.lineComment, .seq (Pattern.text "//") (.star (noneOf "\n"))),
   (.ident, .seq identStart (.star identRest)),
   (.int, oneOf
     [digits,
      concat [Pattern.char '0', anyOf "xX", plus hexDigit],
      concat [Pattern.char '0', anyOf "oO", plus (anyOf "01234567_")],
      concat [Pattern.char '0', anyOf "bB", plus (anyOf "01_")]]),
   (.float, oneOf
     [concat [digits, Pattern.char '.', .star digitOrBar, optional exponent],
      concat [Pattern.char '.', digits, optional exponent],
      concat [digits, exponent]]),
   (.imaginary, oneOf
     [concat [digits, optional (.seq (Pattern.char '.') (.star digitOrBar)), optional exponent,
        Pattern.char 'i'],
      concat [Pattern.char '.', digits, optional exponent, Pattern.char 'i']]),
   (.char, concat [Pattern.char '\'', .alt (noneOf "'\\\n") (.seq escape (.star (noneOf "'\n"))),
      Pattern.char '\'']),
   (.string, concat [Pattern.char '"', .star stringItem, Pattern.char '"']),
   (.rawString, concat [Pattern.char '\x60', .star (noneOf "\x60"), Pattern.char '\x60'])]

/-- The patterns of all tokens. -/
def patterns : List (Kind × Pattern) :=
  fixedPatterns ++ variedPatterns

end GoNav.Token
