import GoNav.Token

namespace GoNav.Grammar

/-- A significant token with the blanks and comments before it. -/
structure Lexeme where
  lead : List Token
  token : Token
  deriving DecidableEq, Repr

namespace Lexeme

def kind (l : Lexeme) : Kind :=
  l.token.kind

/-- Whether a line break stands between the token and the significant token before it. -/
def afterNewline (l : Lexeme) : Bool :=
  l.lead.any Token.hasNewline

end Lexeme

/-- The tokens of a file as the parser reads them: the significant ones, each with what stands before
it, and then the blanks and comments at the end of the file. -/
structure Input where
  lexemes : List Lexeme
  trailing : List Token
  deriving DecidableEq, Repr

/-- Groups tokens, of which those in `lead` are already seen and belong to what comes next. -/
def Input.group (lead : List Token) : List Token → Input
  | [] => ⟨[], lead⟩
  | t :: rest =>
    if t.kind.isTrivia then group (lead ++ [t]) rest
    else
      let later := group [] rest
      ⟨⟨lead, t⟩ :: later.lexemes, later.trailing⟩

def Input.ofTokens (tokens : List Token) : Input :=
  .group [] tokens

end GoNav.Grammar
