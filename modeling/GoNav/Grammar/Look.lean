import GoNav.Grammar.Input

namespace GoNav.Grammar

/-- What a rule may see before it decides: the significant tokens ahead, the one before them, whether
a line break stands at the end of the file, and whether a statement header is being read. -/
structure View where
  ahead : List Lexeme
  before : Option Kind
  endNewline : Bool
  inHeader : Bool

namespace View

/-- The kind of the token `n` places ahead; `error` behind the end of the file. -/
def kindAt (v : View) (n : Nat) : Kind :=
  (v.ahead[n]?.map Lexeme.kind).getD .error

/-- Whether a line break stands before the token `n` places ahead, or before the end of the file. -/
def newlineAt (v : View) (n : Nat) : Bool :=
  (v.ahead[n]?.map Lexeme.afterNewline).getD v.endNewline

/-- Whether a statement ends here without a semicolon: at the end of the file, and at a line break
behind a token that can end a statement. -/
def implicitEnd (v : View) : Bool :=
  v.ahead.isEmpty || (v.newlineAt 0 && v.before.any Kind.endsStatement)

end View

/-- Whether the kinds are those of `name {, name} :=` with anything behind. -/
def definesShort : List Kind → Bool
  | .ident :: .colonEq :: _ => true
  | .ident :: .comma :: rest => definesShort rest
  | _ => false

/-- Whether the first `:=` ahead is followed by `range`. -/
def rangeBehindDefine : List Kind → Bool
  | .colonEq :: next :: _ => next == .rangeKw
  | .colonEq :: [] => false
  | _ :: rest => rangeBehindDefine rest
  | [] => false

/-- Whether a group of a parameter list starts with a name and something other than a dot, judged by
the first two tokens of the group. -/
def namedGroup : List Kind → Bool
  | .ident :: second :: _ => second != .dot
  | _ => false

/-- Whether a parameter list, read from behind its opening parenthesis, gives names: some group
between commas outside brackets does so before the list closes. The first two tokens of the group
being read are in `group`, and `depth` brackets are open in it. -/
def namesParameters (depth : Nat) (group : List Kind) : List Kind → Bool
  | [] => false
  | kind :: rest =>
    let extended := if group.length < 2 then group ++ [kind] else group
    match kind with
    | .leftParen | .leftBracket | .leftBrace => namesParameters (depth + 1) extended rest
    | .rightParen | .rightBracket | .rightBrace =>
      match depth with
      | 0 => namedGroup group
      | n + 1 => namesParameters n extended rest
    | .comma =>
      match depth with
      | 0 => namedGroup group || namesParameters 0 [] rest
      | n + 1 => namesParameters (n + 1) extended rest
    | _ => namesParameters depth extended rest

/-- Whether a colon stands between a bracket, read from behind it, and the one that closes it. -/
def colonInBrackets (depth : Nat) : List Kind → Bool
  | [] => false
  | .leftParen :: rest | .leftBracket :: rest | .leftBrace :: rest => colonInBrackets (depth + 1) rest
  | .rightParen :: rest | .rightBrace :: rest => colonInBrackets (depth - 1) rest
  | .rightBracket :: rest =>
    match depth with
    | 0 => false
    | n + 1 => colonInBrackets n rest
  | .colon :: rest => depth == 0 || colonInBrackets depth rest
  | _ :: rest => colonInBrackets depth rest

/-- The questions a rule may ask about what lies ahead. -/
inductive Look where
  | current (kind : Kind)
  | currentAny (kinds : List Kind)
  | next (n : Nat) (kind : Kind)
  | atEnd
  | implicitEnd
  | newlineBefore (n : Nat)
  | inHeader
  | shortDefinition
  | rangeDefinition
  | namedParameters
  | bracketColon
  | not (look : Look)
  | and (left right : Look)
  | or (left right : Look)
  deriving DecidableEq, Repr

namespace Look

def holds (v : View) : Look → Bool
  | .current kind => v.ahead.head?.any (·.kind == kind)
  | .currentAny kinds => v.ahead.head?.any (kinds.contains ·.kind)
  | .next n kind => v.kindAt n == kind
  | .atEnd => v.ahead.isEmpty
  | .implicitEnd => v.implicitEnd
  | .newlineBefore n => v.newlineAt n
  | .inHeader => v.inHeader
  | .shortDefinition => definesShort (v.ahead.map Lexeme.kind)
  | .rangeDefinition => rangeBehindDefine (v.ahead.map Lexeme.kind)
  | .namedParameters => namesParameters 0 [] (v.ahead.map Lexeme.kind)
  | .bracketColon => colonInBrackets 0 (v.ahead.tail.map Lexeme.kind)
  | .not look => !look.holds v
  | .and left right => left.holds v && right.holds v
  | .or left right => left.holds v || right.holds v

/-- At a token that ends a statement, or where it ends without one. -/
def terminator : Look :=
  .or (.currentAny [.semicolon, .rightParen, .rightBrace]) .implicitEnd

/-- At a token that can start a type. -/
def typeStart : Look :=
  .currentAny [.ident, .star, .leftBracket, .mapKw, .chanKw, .funcKw, .structKw, .interfaceKw,
    .leftParen, .arrow]

/-- At a name that is followed by the braces of a composite literal. In a statement header the braces
are those of the body. -/
def compositeName : Look :=
  .and (.not .inHeader) (.and (.current .ident)
    (.or (.next 1 .leftBrace) (.and (.next 1 .dot) (.and (.next 2 .ident) (.next 3 .leftBrace)))))

end Look

end GoNav.Grammar
