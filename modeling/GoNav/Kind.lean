namespace GoNav

/-- The kinds of syntax: first the kinds of tokens, then the kinds of nodes, and last `error`, which
marks both a token that no pattern covers and a node that holds tokens skipped in recovery. -/
inductive Kind where
  -- blanks and comments
  | whitespace | lineComment | blockComment
  -- names and literals
  | ident | int | float | imaginary | char | string | rawString
  -- punctuation
  | leftParen | rightParen | leftBrace | rightBrace | leftBracket | rightBracket | semicolon
  | colon | comma | dot | ellipsis | plus | minus | star | slash | percent | amp | pipe | caret
  | shl | shr | ampCaret | plusEq | minusEq | starEq | slashEq | percentEq | ampEq | pipeEq
  | caretEq | shlEq | shrEq | ampCaretEq | ampAmp | pipePipe | arrow | plusPlus | minusMinus
  | eqEq | notEq | lt | gt | ltEq | gtEq | eq | colonEq | bang | tilde
  -- keywords
  | breakKw | caseKw | chanKw | constKw | continueKw | defaultKw | deferKw | elseKw
  | fallthroughKw | forKw | funcKw | goKw | gotoKw | ifKw | importKw | interfaceKw | mapKw
  | packageKw | rangeKw | returnKw | selectKw | structKw | switchKw | typeKw | varKw
  -- files and declarations
  | sourceFile | packageClause | importDecl | importSpec | importString | typeDecl | typeSpec
  | varDecl | varSpec | varDef | constDecl | constSpec | constDef | functionDecl | methodDecl
  | receiver | signature | parameters | paramDecl | paramDef | result | typeParameters
  -- types
  | typeName | typeReference | pointerType | arrayType | mapType | chanType | functionType
  | structType | fieldDecl | fieldDef | anonFieldDef | tag | interfaceType | methodSpec
  | embeddedInterface | parenType
  -- statements
  | block | declarationStatement | exprStatement | shortVarDecl | assignmentStatement
  | incDecStatement | sendStatement | returnStatement | ifStatement | forStatement | forClause
  | rangeClause | switchStatement | caseClause | selectStatement | commClause | goStatement
  | deferStatement | breakStatement | continueStatement | gotoStatement | fallthroughStatement
  | labeledStatement | labelRef
  -- expressions
  | referenceExpr | literal | parenExpr | functionLit | compositeLit | literalValue | element
  | key | fieldName | callExpr | argumentList | indexExpr | sliceExpr | typeAssertionExpr
  | conversionExpr | unaryExpr | orExpr | andExpr | conditionalExpr | addExpr | mulExpr
  -- recovery
  | error
  deriving DecidableEq, Repr, Inhabited

namespace Kind

/-- Every kind, in the order in which the kinds are numbered. -/
def all : List Kind :=
  [.whitespace, .lineComment, .blockComment, .ident, .int, .float, .imaginary, .char, .string,
   .rawString, .leftParen, .rightParen, .leftBrace, .rightBrace, .leftBracket, .rightBracket,
   .semicolon, .colon, .comma, .dot, .ellipsis, .plus, .minus, .star, .slash, .percent, .amp,
   .pipe, .caret, .shl, .shr, .ampCaret, .plusEq, .minusEq, .starEq, .slashEq, .percentEq,
   .ampEq, .pipeEq, .caretEq, .shlEq, .shrEq, .ampCaretEq, .ampAmp, .pipePipe, .arrow, .plusPlus,
   .minusMinus, .eqEq, .notEq, .lt, .gt, .ltEq, .gtEq, .eq, .colonEq, .bang, .tilde, .breakKw,
   .caseKw, .chanKw, .constKw, .continueKw, .defaultKw, .deferKw, .elseKw, .fallthroughKw,
   .forKw, .funcKw, .goKw, .gotoKw, .ifKw, .importKw, .interfaceKw, .mapKw, .packageKw, .rangeKw,
   .returnKw, .selectKw, .structKw, .switchKw, .typeKw, .varKw, .sourceFile, .packageClause,
   .importDecl, .importSpec, .importString, .typeDecl, .typeSpec, .varDecl, .varSpec, .varDef,
   .constDecl, .constSpec, .constDef, .functionDecl, .methodDecl, .receiver, .signature,
   .parameters, .paramDecl, .paramDef, .result, .typeParameters, .typeName, .typeReference,
   .pointerType, .arrayType, .mapType, .chanType, .functionType, .structType, .fieldDecl,
   .fieldDef, .anonFieldDef, .tag, .interfaceType, .methodSpec, .embeddedInterface, .parenType,
   .block, .declarationStatement, .exprStatement, .shortVarDecl, .assignmentStatement,
   .incDecStatement, .sendStatement, .returnStatement, .ifStatement, .forStatement, .forClause,
   .rangeClause, .switchStatement, .caseClause, .selectStatement, .commClause, .goStatement,
   .deferStatement, .breakStatement, .continueStatement, .gotoStatement, .fallthroughStatement,
   .labeledStatement, .labelRef, .referenceExpr, .literal, .parenExpr, .functionLit,
   .compositeLit, .literalValue, .element, .key, .fieldName, .callExpr, .argumentList,
   .indexExpr, .sliceExpr, .typeAssertionExpr, .conversionExpr, .unaryExpr, .orExpr, .andExpr,
   .conditionalExpr, .addExpr, .mulExpr,
   .error]

/-- The number of a kind is its place in `all`. -/
def index (kind : Kind) : Nat :=
  kind.ctorIdx

def ofIndex? (n : Nat) : Option Kind :=
  all[n]?

theorem ofIndex?_index (kind : Kind) : ofIndex? kind.index = some kind := by
  cases kind <;> rfl

/-- The name under which a kind is shown. -/
def name : Kind → String
  | .whitespace => "WHITESPACE"
  | .lineComment => "LINE_COMMENT"
  | .blockComment => "BLOCK_COMMENT"
  | .ident => "IDENT"
  | .int => "INT"
  | .float => "FLOAT"
  | .imaginary => "IMAGINARY"
  | .char => "CHAR"
  | .string => "STRING"
  | .rawString => "RAW_STRING"
  | .leftParen => "L_PAREN"
  | .rightParen => "R_PAREN"
  | .leftBrace => "L_BRACE"
  | .rightBrace => "R_BRACE"
  | .leftBracket => "L_BRACKET"
  | .rightBracket => "R_BRACKET"
  | .semicolon => "SEMICOLON"
  | .colon => "COLON"
  | .comma => "COMMA"
  | .dot => "DOT"
  | .ellipsis => "ELLIPSIS"
  | .plus => "PLUS"
  | .minus => "MINUS"
  | .star => "STAR"
  | .slash => "SLASH"
  | .percent => "PERCENT"
  | .amp => "AMP"
  | .pipe => "PIPE"
  | .caret => "CARET"
  | .shl => "SHL"
  | .shr => "SHR"
  | .ampCaret => "AMP_CARET"
  | .plusEq => "PLUS_EQ"
  | .minusEq => "MINUS_EQ"
  | .starEq => "STAR_EQ"
  | .slashEq => "SLASH_EQ"
  | .percentEq => "PERCENT_EQ"
  | .ampEq => "AMP_EQ"
  | .pipeEq => "PIPE_EQ"
  | .caretEq => "CARET_EQ"
  | .shlEq => "SHL_EQ"
  | .shrEq => "SHR_EQ"
  | .ampCaretEq => "AMP_CARET_EQ"
  | .ampAmp => "AMP_AMP"
  | .pipePipe => "PIPE_PIPE"
  | .arrow => "ARROW"
  | .plusPlus => "PLUS_PLUS"
  | .minusMinus => "MINUS_MINUS"
  | .eqEq => "EQ_EQ"
  | .notEq => "NOT_EQ"
  | .lt => "LT"
  | .gt => "GT"
  | .ltEq => "LT_EQ"
  | .gtEq => "GT_EQ"
  | .eq => "EQ"
  | .colonEq => "COLON_EQ"
  | .bang => "BANG"
  | .tilde => "TILDE"
  | .breakKw => "BREAK_KW"
  | .caseKw => "CASE_KW"
  | .chanKw => "CHAN_KW"
  | .constKw => "CONST_KW"
  | .continueKw => "CONTINUE_KW"
  | .defaultKw => "DEFAULT_KW"
  | .deferKw => "DEFER_KW"
  | .elseKw => "ELSE_KW"
  | .fallthroughKw => "FALLTHROUGH_KW"
  | .forKw => "FOR_KW"
  | .funcKw => "FUNC_KW"
  | .goKw => "GO_KW"
  | .gotoKw => "GOTO_KW"
  | .ifKw => "IF_KW"
  | .importKw => "IMPORT_KW"
  | .interfaceKw => "INTERFACE_KW"
  | .mapKw => "MAP_KW"
  | .packageKw => "PACKAGE_KW"
  | .rangeKw => "RANGE_KW"
  | .returnKw => "RETURN_KW"
  | .selectKw => "SELECT_KW"
  | .structKw => "STRUCT_KW"
  | .switchKw => "SWITCH_KW"
  | .typeKw => "TYPE_KW"
  | .varKw => "VAR_KW"
  | .sourceFile => "SOURCE_FILE"
  | .packageClause => "PACKAGE_CLAUSE"
  | .importDecl => "IMPORT_DECL"
  | .importSpec => "IMPORT_SPEC"
  | .importString => "IMPORT_STRING"
  | .typeDecl => "TYPE_DECL"
  | .typeSpec => "TYPE_SPEC"
  | .varDecl => "VAR_DECL"
  | .varSpec => "VAR_SPEC"
  | .varDef => "VAR_DEF"
  | .constDecl => "CONST_DECL"
  | .constSpec => "CONST_SPEC"
  | .constDef => "CONST_DEF"
  | .functionDecl => "FUNCTION_DECL"
  | .methodDecl => "METHOD_DECL"
  | .receiver => "RECEIVER"
  | .signature => "SIGNATURE"
  | .parameters => "PARAMETERS"
  | .paramDecl => "PARAM_DECL"
  | .paramDef => "PARAM_DEF"
  | .result => "RESULT"
  | .typeParameters => "TYPE_PARAMETERS"
  | .typeName => "TYPE_NAME"
  | .typeReference => "TYPE_REFERENCE"
  | .pointerType => "POINTER_TYPE"
  | .arrayType => "ARRAY_TYPE"
  | .mapType => "MAP_TYPE"
  | .chanType => "CHAN_TYPE"
  | .functionType => "FUNCTION_TYPE"
  | .structType => "STRUCT_TYPE"
  | .fieldDecl => "FIELD_DECL"
  | .fieldDef => "FIELD_DEF"
  | .anonFieldDef => "ANON_FIELD_DEF"
  | .tag => "TAG"
  | .interfaceType => "INTERFACE_TYPE"
  | .methodSpec => "METHOD_SPEC"
  | .embeddedInterface => "EMBEDDED_INTERFACE"
  | .parenType => "PAREN_TYPE"
  | .block => "BLOCK"
  | .declarationStatement => "DECLARATION_STATEMENT"
  | .exprStatement => "EXPR_STATEMENT"
  | .shortVarDecl => "SHORT_VAR_DECL"
  | .assignmentStatement => "ASSIGNMENT_STATEMENT"
  | .incDecStatement => "INC_DEC_STATEMENT"
  | .sendStatement => "SEND_STATEMENT"
  | .returnStatement => "RETURN_STATEMENT"
  | .ifStatement => "IF_STATEMENT"
  | .forStatement => "FOR_STATEMENT"
  | .forClause => "FOR_CLAUSE"
  | .rangeClause => "RANGE_CLAUSE"
  | .switchStatement => "SWITCH_STATEMENT"
  | .caseClause => "CASE_CLAUSE"
  | .selectStatement => "SELECT_STATEMENT"
  | .commClause => "COMM_CLAUSE"
  | .goStatement => "GO_STATEMENT"
  | .deferStatement => "DEFER_STATEMENT"
  | .breakStatement => "BREAK_STATEMENT"
  | .continueStatement => "CONTINUE_STATEMENT"
  | .gotoStatement => "GOTO_STATEMENT"
  | .fallthroughStatement => "FALLTHROUGH_STATEMENT"
  | .labeledStatement => "LABELED_STATEMENT"
  | .labelRef => "LABEL_REF"
  | .referenceExpr => "REFERENCE_EXPR"
  | .literal => "LITERAL"
  | .parenExpr => "PAREN_EXPR"
  | .functionLit => "FUNCTION_LIT"
  | .compositeLit => "COMPOSITE_LIT"
  | .literalValue => "LITERAL_VALUE"
  | .element => "ELEMENT"
  | .key => "KEY"
  | .fieldName => "FIELD_NAME"
  | .callExpr => "CALL_EXPR"
  | .argumentList => "ARGUMENT_LIST"
  | .indexExpr => "INDEX_EXPR"
  | .sliceExpr => "SLICE_EXPR"
  | .typeAssertionExpr => "TYPE_ASSERTION_EXPR"
  | .conversionExpr => "CONVERSION_EXPR"
  | .unaryExpr => "UNARY_EXPR"
  | .orExpr => "OR_EXPR"
  | .andExpr => "AND_EXPR"
  | .conditionalExpr => "CONDITIONAL_EXPR"
  | .addExpr => "ADD_EXPR"
  | .mulExpr => "MUL_EXPR"
  | .error => "ERROR"

/-- Blanks and comments. -/
def isTrivia : Kind → Bool
  | .whitespace | .lineComment | .blockComment => true
  | _ => false

/-- The reserved words. -/
def isKeyword (kind : Kind) : Bool :=
  Kind.breakKw.index ≤ kind.index && kind.index ≤ Kind.varKw.index

/-- Operators, brackets and separators. -/
def isPunct (kind : Kind) : Bool :=
  Kind.leftParen.index ≤ kind.index && kind.index ≤ Kind.tilde.index

/-- Numbers, characters and strings. -/
def literals : List Kind :=
  [.int, .float, .imaginary, .char, .string, .rawString]

def isLiteral (kind : Kind) : Bool :=
  literals.contains kind

/-- The kinds that only a token has; `error` is not among them. -/
def isToken (kind : Kind) : Bool :=
  kind.index ≤ Kind.varKw.index

/-- The assignment operators, `:=` not among them. -/
def assignOps : List Kind :=
  [.eq, .plusEq, .minusEq, .starEq, .slashEq, .percentEq, .ampEq, .pipeEq, .caretEq, .shlEq,
   .shrEq, .ampCaretEq]

def isAssignOp (kind : Kind) : Bool :=
  assignOps.contains kind

/-- The tokens after which a line break ends the statement. -/
def endsStatement : Kind → Bool
  | .ident | .int | .float | .imaginary | .char | .string | .rawString | .breakKw
  | .continueKw | .fallthroughKw | .returnKw | .plusPlus | .minusMinus | .rightParen
  | .rightBracket | .rightBrace => true
  | _ => false

/-- The tokens that are written in one way only, with that spelling: punctuation, then keywords. -/
def spellings : List (Kind × String) :=
  [(.leftParen, "("), (.rightParen, ")"), (.leftBrace, "\x7b"), (.rightBrace, "\x7d"),
   (.leftBracket, "["), (.rightBracket, "]"), (.semicolon, ";"), (.colon, ":"), (.comma, ","),
   (.dot, "."), (.ellipsis, "..."), (.plus, "+"), (.minus, "-"), (.star, "*"), (.slash, "/"),
   (.percent, "%"), (.amp, "&"), (.pipe, "|"), (.caret, "^"), (.shl, "<<"), (.shr, ">>"),
   (.ampCaret, "&^"), (.plusEq, "+="), (.minusEq, "-="), (.starEq, "*="), (.slashEq, "/="),
   (.percentEq, "%="), (.ampEq, "&="), (.pipeEq, "|="), (.caretEq, "^="), (.shlEq, "<<="),
   (.shrEq, ">>="), (.ampCaretEq, "&^="), (.ampAmp, "&&"), (.pipePipe, "||"), (.arrow, "<-"),
   (.plusPlus, "++"), (.minusMinus, "--"), (.eqEq, "=="), (.notEq, "!="), (.lt, "<"), (.gt, ">"),
   (.ltEq, "<="), (.gtEq, ">="), (.eq, "="), (.colonEq, ":="), (.bang, "!"), (.tilde, "~"),
   (.breakKw, "break"), (.caseKw, "case"), (.chanKw, "chan"), (.constKw, "const"),
   (.continueKw, "continue"), (.defaultKw, "default"), (.deferKw, "defer"), (.elseKw, "else"),
   (.fallthroughKw, "fallthrough"), (.forKw, "for"), (.funcKw, "func"), (.goKw, "go"),
   (.gotoKw, "goto"), (.ifKw, "if"), (.importKw, "import"), (.interfaceKw, "interface"),
   (.mapKw, "map"), (.packageKw, "package"), (.rangeKw, "range"), (.returnKw, "return"),
   (.selectKw, "select"), (.structKw, "struct"), (.switchKw, "switch"), (.typeKw, "type"),
   (.varKw, "var")]

end Kind

end GoNav
