import GoNav.Kind

namespace GoNav

/-- The broad classes of nodes. Declarations, clauses and other structural nodes are composite. -/
inductive Category where
  | expression | statement | typ | composite
  deriving DecidableEq, Repr

def Category.name : Category → String
  | .expression => "Expression"
  | .statement => "Statement"
  | .typ => "Type"
  | .composite => "Composite"

namespace Kind

/-- The class of a kind of node. Tokens and error nodes have none. -/
def category : Kind → Option Category
  | .sourceFile | .packageClause | .importDecl | .importSpec | .importString | .typeDecl
  | .typeSpec | .varDecl | .varSpec | .varDef | .constDecl | .constSpec | .constDef
  | .functionDecl | .methodDecl | .receiver | .signature | .parameters | .paramDecl
  | .paramDef | .result | .typeParameters | .typeName | .fieldDecl | .fieldDef
  | .anonFieldDef | .tag | .methodSpec | .embeddedInterface | .block | .shortVarDecl
  | .forClause | .rangeClause | .caseClause | .commClause | .labelRef | .literalValue
  | .element | .key | .fieldName | .argumentList =>
    some .composite
  | .typeReference | .pointerType | .arrayType | .mapType | .chanType | .functionType
  | .structType | .interfaceType | .parenType =>
    some .typ
  | .declarationStatement | .exprStatement | .assignmentStatement | .incDecStatement
  | .sendStatement | .returnStatement | .ifStatement | .forStatement | .switchStatement
  | .selectStatement | .goStatement | .deferStatement | .breakStatement
  | .continueStatement | .gotoStatement | .fallthroughStatement | .labeledStatement =>
    some .statement
  | .referenceExpr | .literal | .parenExpr | .functionLit | .compositeLit | .callExpr
  | .indexExpr | .sliceExpr | .typeAssertionExpr | .conversionExpr | .unaryExpr | .orExpr
  | .andExpr | .conditionalExpr | .addExpr | .mulExpr =>
    some .expression
  | _ => none

/-- The nodes that are expressions. -/
def isExpression (kind : Kind) : Bool :=
  kind.category == some .expression

/-- The nodes that stand for a type. A named type is a `typeName`, which holds the reference. -/
def isTypeExpr : Kind → Bool
  | .typeName | .pointerType | .arrayType | .mapType | .chanType | .functionType | .structType
  | .interfaceType | .parenType => true
  | _ => false

end Kind

end GoNav
