import GoNav.Grammar.Look
import GoNav.SyntaxError

namespace GoNav.Grammar

/-- The rules of the grammar that other rules refer to. -/
inductive Rule where
  | sourceFile | packageClause | importDecl | importSpec | topLevelDecl
  | typeDecl | typeSpec | varDecl | varSpec | constDecl | constSpec
  | functionDecl | receiver | typeParameters | bracketRest | signature | parameters
  | paramDecl (named : Bool)
  | typ | typeName | typeReference | structType | fieldDecl | interfaceType | interfaceElement
  | block | statementList | statement | simpleStatement | headerPart | shortVarDecl
  | ifStatement | forStatement | forHeader | switchStatement | selectStatement
  | caseClause | commClause
  | expressionList | expression | binary (precedence : Nat) | unary | primary | operand
  | argumentList | literalValue | element | elementValue
  deriving DecidableEq, Repr

/-- What a rule does. An action reads tokens, adds to the children of the node being built, and
answers yes or no. -/
inductive Action where
  /-- Answers without doing anything. -/
  | answer (value : Bool)
  /-- Answers a question about what lies ahead. -/
  | ask (look : Look)
  /-- Does one thing and then the other, and answers what the second answers. -/
  | seq (first second : Action)
  /-- Goes one of two ways, by the answer of the first action. -/
  | branch (question yes no : Action)
  /-- Takes the next significant token, with the blanks and comments before it. -/
  | bump
  /-- Builds a node of what the action adds. Blanks and comments ahead stay outside. -/
  | node (kind : Kind) (inner : Action)
  /-- Marks the place from which `wrap` may build a node. Blanks and comments ahead stay before it. -/
  | marked (inner : Action)
  /-- Builds a node of all that was added since the mark, together with what the action adds. -/
  | wrap (kind : Kind) (inner : Action)
  /-- Reports an error at the next significant token and answers no. -/
  | fail (cause : SyntaxError.Cause)
  /-- Does something as part of a statement header, or as no part of one. -/
  | header (inside : Bool) (inner : Action)
  /-- Answers whether the action took a significant token. -/
  | moves (inner : Action)
  /-- Does the action again as long as it answers yes. -/
  | loop (inner : Action)
  /-- Follows a rule. -/
  | call (rule : Rule)
  deriving DecidableEq, Repr

namespace Action

def yes : Action := .answer true

def no : Action := .answer false

/-- One action after the other. -/
def all (actions : List Action) : Action :=
  match actions with
  | [] => yes
  | [last] => last
  | first :: rest => .seq first (all rest)

/-- Does the action where the question is answered with yes. -/
def when (look : Look) (action : Action) : Action :=
  .branch (.ask look) action no

/-- Goes the way of the first question that is answered with yes. -/
def choose (ways : List (Look × Action)) (otherwise : Action) : Action :=
  ways.foldr (fun (look, action) rest => .branch (.ask look) action rest) otherwise

/-- Takes the next token if it has the given kind, and answers whether it did. -/
def eat (kind : Kind) : Action :=
  .branch (.ask (.current kind)) .bump no

/-- Takes the next token, which must have the given kind, and answers whether it had. -/
def expect (kind : Kind) : Action :=
  .branch (eat kind) yes (.fail (.missing kind))

/-- Does the action as long as the question is answered with yes. -/
def repeatWhile (look : Look) (action : Action) : Action :=
  .loop (.branch (.ask look) (.seq action yes) no)

/-- Reports an error and takes the next token into an error node. -/
def skipOne (cause : SyntaxError.Cause) : Action :=
  .seq (.fail cause) (.node .error .bump)

/-- Ends a statement: at a semicolon, which is taken, or where no semicolon is needed. Whatever stands
before such a place goes into an error node. -/
def endStatement : Action :=
  .branch (eat .semicolon) yes
    (.branch (.ask .terminator) yes
      (all
        [.fail .terminator,
         .node .error (repeatWhile (.not (.or .atEnd .terminator)) .bump),
         eat .semicolon]))

/-- Takes a token into an error node if the action took none. A semicolon stays, for it ends the
statement. -/
def progress (action : Action) (cause : SyntaxError.Cause) : Action :=
  .branch (.moves action) yes
    (when (.not (.or .atEnd (.current .semicolon))) (skipOne cause))

end Action

end GoNav.Grammar
