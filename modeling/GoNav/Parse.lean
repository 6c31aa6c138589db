import GoNav.Grammar.Assemble
import GoNav.Token.Engine

namespace GoNav

/-- A file's syntax tree, and the errors found on the way in the order in which they were found. -/
structure Parse where
  tree : Tree
  errors : List SyntaxError
  deriving Repr, Inhabited

namespace Parse

/-- How many rules can follow one another inward before one of them takes a token. -/
def rulesPerToken : Nat := 48

/-- Parses a sequence of tokens. Every text has a tree: what fits no rule is kept in error nodes. -/
def ofTokens (tokens : List Token) : Parse :=
  let depth := rulesPerToken * (tokens.length + 1)
  let s := (Grammar.Rule.sourceFile.run depth (.ofTokens tokens)).2.flush
  ⟨.node .sourceFile s.built, s.errors⟩

/-- The tree of a sequence of tokens as the calls of a builder give it, unless a call is a fault. -/
def assemble (tokens : List Token) : Option Tree :=
  let depth := rulesPerToken * (tokens.length + 1)
  let start : Grammar.Assembly := ⟨.ofTokens tokens, Builder.empty.startNode .sourceFile⟩
  (Grammar.Rule.sourceFile.assemble depth start).bind fun done =>
    done.2.flush.finishNode.bind fun closed => closed.builder.finish

/-- Parses the text of a file. -/
def ofText (text : String) : Parse :=
  ofTokens (Token.scan text)

/-- Whether the text is free of syntax errors. -/
def ok (p : Parse) : Bool :=
  p.errors.isEmpty

end Parse

end GoNav
