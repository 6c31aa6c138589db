import GoNav.Kind.Category
import GoNav.Node

namespace GoNav

mutual

/-- The number of nodes on the longest way down through a tree. -/
def Tree.height : Tree → Nat
  | .token .. => 0
  | .node _ children => Tree.heightOf children + 1

def Tree.heightOf : List Tree → Nat
  | [] => 0
  | t :: rest => max t.height (Tree.heightOf rest)

end

namespace Node

/-- The name that a node gives or uses: its own identifier token. -/
def identifier (n : Node) : Option Leaf :=
  n.token .ident

def identifierText (n : Node) : Option String :=
  n.identifier.map Leaf.text

/-- The type in a specification, a parameter, a field and so on. -/
def typeExpr (n : Node) : Option Node :=
  n.childWhere Kind.isTypeExpr

def expressions (n : Node) : List Node :=
  n.childrenWhere Kind.isExpression

def expression (n : Node) : Option Node :=
  n.childWhere Kind.isExpression

/-! Files -/

def packageName (file : Node) : Option String :=
  (file.child .packageClause).bind identifierText

/-- The specifications in the declarations of one kind at the top level of a file. -/
def topLevelSpecs (file : Node) (declaration spec : Kind) : List Node :=
  (file.childrenOf declaration).flatMap (·.childrenOf spec)

def imports (file : Node) : List Node :=
  file.topLevelSpecs .importDecl .importSpec

def typeSpecs (file : Node) : List Node :=
  file.topLevelSpecs .typeDecl .typeSpec

def varSpecs (file : Node) : List Node :=
  file.topLevelSpecs .varDecl .varSpec

def constSpecs (file : Node) : List Node :=
  file.topLevelSpecs .constDecl .constSpec

/-! Imports -/

/-- The name that an import is given: an identifier, or a dot. -/
def importAlias (spec : Node) : Option Leaf :=
  (spec.token .ident).or (spec.token .dot)

def isQuote (c : Char) : Bool :=
  c == '"' || c == '\x60'

/-- The path in a quoted import string. -/
def unquoted (string : Node) : String :=
  let body := string.text.toList.dropWhile isQuote
  String.ofList (body.reverse.dropWhile isQuote).reverse

def importPath (spec : Node) : Option String :=
  (spec.child .importString).map unquoted

/-- What stands behind the last slash. -/
def lastSegment (path : String) : String :=
  String.ofList (path.toList.reverse.takeWhile (· != '/')).reverse

/-- The name of an import in its file: the one it is given, or the last segment of its path. -/
def localName (spec : Node) : Option String :=
  match spec.importAlias with
  | some leaf => some leaf.text
  | none => (spec.importPath.map lastSegment).filter (· != "")

def isDotImport (spec : Node) : Bool :=
  spec.importAlias.any (·.kind == .dot)

/-! Variables -/

/-- Which of the variables of its declaration a variable is. -/
def varIndex (definition : Node) : Nat :=
  match definition.parent with
  | none => 0
  | some p => ((p.childrenOf .varDef).takeWhile (· != definition)).length

/-- The type in the specification around a definition. -/
def specType (definition : Node) (spec : Kind) : Option Node :=
  (definition.parent.filter (·.kind == spec)).bind typeExpr

/-- The expression that gives a variable its value. A range clause gives it none. -/
def varValue (definition : Node) : Option Node :=
  match definition.parent with
  | none => none
  | some p => if p.kind == .rangeClause then none else p.expressions[definition.varIndex]?

/-! Types -/

/-- The type behind a `*` or between parentheses. -/
def innerType (typ : Node) : Option Node :=
  match typ.kind with
  | .pointerType | .parenType => typ.typeExpr
  | _ => none

/-- The type behind at most `depth` pointers and parentheses. -/
def strip : Nat → Node → Node
  | 0, typ => typ
  | depth + 1, typ =>
    match typ.innerType with
    | some inner => strip depth inner
    | none => typ

/-- The type behind all its pointers and parentheses. -/
def stripPointers (typ : Node) : Node :=
  typ.strip (Tree.heightOf typ.trees)

/-- The reference in a named type. -/
def typeReference (typ : Node) : Option Node :=
  if typ.kind == .typeName then typ.child .typeReference else none

/-- The name of a type behind its pointers and parentheses. -/
def baseName (typ : Node) : Option String :=
  (typ.stripPointers.typeReference).bind identifierText

/-- The reference to the type that a struct embeds. -/
def embeddedReference (field : Node) : Option Node :=
  field.typeExpr.bind (·.stripPointers.typeReference)

/-- An embedded field is called like its type. -/
def embeddedName (field : Node) : Option Leaf :=
  field.embeddedReference.bind identifier

/-- The name of the type to which a method belongs. -/
def receiverTypeName (method : Node) : Option String :=
  (method.child .receiver).bind fun r => r.typeExpr.bind baseName

/-- The names that a parameter list introduces. -/
def paramDefinitions (parameters : Node) : List Node :=
  (parameters.childrenOf .paramDecl).flatMap (·.childrenOf .paramDef)

/-! Expressions -/

/-- The operator of a unary expression. -/
def operator (unary : Node) : Option Leaf :=
  unary.tokens.find? (!·.kind.isTrivia)

/-- The type of a composite literal that is at most `depth` expressions deep. -/
def literalType : Nat → Node → Option Node
  | 0, _ => none
  | depth + 1, e =>
    match e.kind with
    | .compositeLit => e.typeExpr
    | .unaryExpr =>
      if e.operator.any (·.kind == .amp) then e.expression.bind (literalType depth) else none
    | .parenExpr => e.expression.bind (literalType depth)
    | _ => none

/-- The type of a composite literal, also behind `&` and between parentheses. -/
def compositeType (e : Node) : Option Node :=
  literalType (Tree.heightOf e.trees + 1) e

end Node

end GoNav
