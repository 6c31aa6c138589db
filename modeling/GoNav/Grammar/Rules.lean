import GoNav.Grammar.Action

namespace GoNav.Grammar

open GoNav.Grammar.Action

/-- A binary operator level: its precedence, its kind of node, and its operators. -/
structure OperatorLevel where
  precedence : Nat
  kind : Kind
  operators : List Kind

/-- The binary operators, from those that bind least. -/
def operatorLevels : List OperatorLevel :=
  [⟨1, .orExpr, [.pipePipe]⟩,
   ⟨2, .andExpr, [.ampAmp]⟩,
   ⟨3, .conditionalExpr, [.eqEq, .notEq, .lt, .ltEq, .gt, .gtEq]⟩,
   ⟨4, .addExpr, [.plus, .minus, .pipe, .caret]⟩,
   ⟨5, .mulExpr, [.star, .slash, .percent, .shl, .shr, .amp, .ampCaret]⟩]

/-- A single specification, or any number of them in parentheses. -/
def group (spec : Rule) : Action :=
  .branch (eat .leftParen)
    (.seq
      (repeatWhile (.not (.or (.current .rightParen) .atEnd))
        (.seq (progress (.call spec) .specification) endStatement))
      (expect .rightParen))
    (.call spec)

/-- A keyword with its specifications. -/
def declaration (kind : Kind) (spec : Rule) : Action :=
  .node kind (.seq .bump (group spec))

/-- Names between commas, each in a node of its own. -/
def definitions (kind : Kind) : Action :=
  .loop (.seq (.node kind (expect .ident))
    (when (.and (.current .comma) (.next 1 .ident)) .bump))

/-- A keyword and the label it may name on the same line. -/
def jump (kind : Kind) : Action :=
  .node kind (.seq .bump
    (when (.and (.current .ident) (.not .implicitEnd)) (.node .labelRef .bump)))

/-- A clause of a `switch` or `select` statement: what it is for, unless it is the default, and its
statements. -/
def clause (kind : Kind) (label : Rule) : Action :=
  .node kind (all
    [.branch (eat .caseKw) (.call label) .bump,
     expect .colon,
     .call .statementList])

/-- The clauses of a `switch` or `select` statement, in braces. -/
def clauses (clause : Rule) : Action :=
  all
    [expect .leftBrace,
     repeatWhile (.not (.or (.current .rightBrace) .atEnd))
       (.branch (.ask (.currentAny [.caseKw, .defaultKw])) (.call clause)
         (skipOne .caseOrDefault)),
     expect .rightBrace]

/-- Members in braces, each ended like a statement. -/
def members (member : Rule) (cause : SyntaxError.Cause) : Action :=
  all
    [expect .leftBrace,
     repeatWhile (.not (.or (.current .rightBrace) .atEnd))
       (.seq (progress (.call member) cause) endStatement),
     expect .rightBrace]

/-- Parameter declarations between commas, up to the closing parenthesis. -/
def parameterList (named : Bool) : Action :=
  .header false (.loop
    (when (.not (.or (.current .rightParen) .atEnd))
      (.seq (progress (.call (.paramDecl named)) .parameter) (eat .comma))))

/-- Items between commas, up to the closing token. An item that takes nothing ends the list. -/
def items (close : Kind) (item : Action) : Action :=
  .loop (when (.not (.or (.current close) .atEnd)) (.branch (.moves item) (eat .comma) no))

/-- The brackets of an index or slice expression. -/
def indices : Action :=
  all
    [.bump,
     .header false (.loop (when (.not (.or (.current .rightBracket) .atEnd))
       (.branch (eat .colon) yes
         (.branch (.moves (.call .expression)) (.seq (eat .comma) yes) no)))),
     expect .rightBracket]

/-- A struct field is embedded when it starts with `*`, or is a name with no type on its line. -/
def embeddedField : Look :=
  .or (.current .star)
    (.and (.current .ident)
      (.or (.newlineBefore 1)
        (.or (.next 1 .semicolon) (.or (.next 1 .rightBrace)
          (.or (.next 1 .string) (.or (.next 1 .rawString) (.next 1 .dot)))))))

/-- The part of a `for` header before its first semicolon. It answers whether a semicolon may follow:
a range clause or a mere condition is the whole header. -/
def forInit : Action :=
  .branch (.ask (.current .semicolon)) yes
    (.branch (.ask .shortDefinition) (.seq (.call .shortVarDecl) yes)
      (.seq (.call .expressionList)
        (choose
          [(.and (.current .eq) (.next 1 .rangeKw),
            .seq (.wrap .rangeClause (all [.bump, .bump, .call .expression])) no),
           (.currentAny (Kind.assignOps ++ [.plusPlus, .minusMinus]),
            .seq (.wrap .assignmentStatement
              (.seq .bump (when (.not (.current .semicolon)) (.call .expressionList)))) yes),
           (.current .semicolon, .seq (.wrap .exprStatement yes) yes)]
          no)))

/-- A statement without a keyword. Mere expressions get a node of their own only before a semicolon, and the
answer is whether there is a node. -/
def plainStatement : Action :=
  .branch (.ask .shortDefinition) (.seq (.call .shortVarDecl) yes)
    (.marked (.seq (.call .expressionList)
      (choose
        [(.implicitEnd, no),
         (.currentAny Kind.assignOps,
          .seq (.wrap .assignmentStatement (.seq .bump (.call .expressionList))) yes),
         (.currentAny [.plusPlus, .minusMinus], .seq (.wrap .incDecStatement .bump) yes),
         (.current .arrow,
          .seq (.wrap .sendStatement (.seq .bump (.call .expression))) yes),
         (.current .semicolon, .seq (.wrap .exprStatement yes) yes)]
        no)))

/-- What a rule does. -/
def Rule.body : Rule → Action
  | .sourceFile =>
    all
      [.branch (.ask (.current .packageKw)) (.seq (.call .packageClause) endStatement)
         (.fail .packageClause),
       repeatWhile (.current .importKw) (.seq (.call .importDecl) endStatement),
       repeatWhile (.not .atEnd) (.seq (progress (.call .topLevelDecl) .declaration) endStatement)]
  | .packageClause => .node .packageClause (.seq .bump (expect .ident))
  | .importDecl => declaration .importDecl .importSpec
  | .importSpec =>
    .node .importSpec (.seq
      (when (.currentAny [.ident, .dot]) .bump)
      (.branch (.ask (.currentAny [.string, .rawString])) (.node .importString .bump)
        (.fail .importPath)))
  | .topLevelDecl =>
    choose
      [(.current .typeKw, .call .typeDecl),
       (.current .varKw, .call .varDecl),
       (.current .constKw, .call .constDecl),
       (.current .funcKw, .call .functionDecl),
       (.current .importKw, .seq (.fail .lateImport) (.call .importDecl)),
       (.current .semicolon, yes)]
      (skipOne .declaration)
  | .typeDecl => declaration .typeDecl .typeSpec
  | .typeSpec =>
    .node .typeSpec (all
      [expect .ident,
       when (.and (.current .leftBracket) (.and (.next 1 .ident) (.not (.next 2 .rightBracket))))
         (.call .typeParameters),
       eat .eq,
       .call .typ])
  | .varDecl => declaration .varDecl .varSpec
  | .varSpec =>
    .node .varSpec (all
      [definitions .varDef,
       when (.not (.or (.current .eq) .terminator)) (.call .typ),
       .branch (eat .eq) (.call .expressionList) no])
  | .constDecl => declaration .constDecl .constSpec
  | .constSpec =>
    .node .constSpec (all
      [definitions .constDef,
       when (.and (.not (.or (.current .eq) .terminator)) .typeStart) (.call .typ),
       .branch (eat .eq) (.call .expressionList) no])
  | .functionDecl =>
    let rest := [when (.current .leftBracket) (.call .typeParameters), .call .signature,
      when (.current .leftBrace) (.call .block)]
    .branch (.ask (.next 1 .leftParen))
      (.node .methodDecl (all ([.bump, .call .receiver, expect .ident] ++ rest)))
      (.node .functionDecl (all ([.bump, expect .ident] ++ rest)))
  | .receiver =>
    .node .receiver (all
      [.bump,
       when (.and (.current .ident) (.or (.next 1 .ident) (.next 1 .star))) .bump,
       .call .typ,
       eat .comma,
       expect .rightParen])
  | .typeParameters => .node .typeParameters (.seq .bump (.call .bracketRest))
  | .bracketRest =>
    .loop (.branch (.ask .atEnd) no
      (.branch (eat .rightBracket) no
        (.branch (eat .leftBracket) (.seq (.call .bracketRest) yes) .bump)))
  | .signature =>
    .node .signature (.seq (.call .parameters)
      (when (.and (.not .implicitEnd) .typeStart)
        (.node .result
          (.branch (.ask (.current .leftParen)) (.call .parameters) (.call .typ)))))
  | .parameters =>
    .node .parameters (.branch (expect .leftParen)
      (.seq
        (.branch (.ask .namedParameters) (parameterList true) (parameterList false))
        (expect .rightParen))
      no)
  | .paramDecl named =>
    .node .paramDecl (all
      [if named then .loop (.seq (.node .paramDef (expect .ident)) (eat .comma)) else yes,
       eat .ellipsis,
       .call .typ])
  | .typ =>
    choose
      [(.current .ident, .call .typeName),
       (.current .star, .node .pointerType (.seq .bump (.call .typ))),
       (.current .leftBracket,
        .node .arrayType (all
          [.bump,
           .branch (.ask (.current .rightBracket)) yes
             (.branch (eat .ellipsis) yes (.header false (.call .expression))),
           expect .rightBracket,
           .call .typ])),
       (.current .mapKw,
        .node .mapType (all
          [.bump, expect .leftBracket, .call .typ, expect .rightBracket, .call .typ])),
       (.current .chanKw, .node .chanType (all [.bump, eat .arrow, .call .typ])),
       (.current .arrow, .node .chanType (all [.bump, expect .chanKw, .call .typ])),
       (.current .funcKw, .node .functionType (.seq .bump (.call .signature))),
       (.current .structKw, .call .structType),
       (.current .interfaceKw, .call .interfaceType),
       (.current .leftParen,
        .node .parenType (all [.bump, .call .typ, expect .rightParen]))]
      (.fail .typ)
  | .typeName =>
    .node .typeName (.seq (.call .typeReference)
      (when (.and (.current .leftBracket)
          (.and (.not .implicitEnd) (.not (.next 1 .rightBracket))))
        (.call .typeParameters)))
  | .typeReference =>
    .marked (.seq (.node .typeReference (expect .ident))
      (when (.and (.current .dot) (.next 1 .ident))
        (.wrap .typeReference (.seq .bump .bump))))
  | .structType => .node .structType (.seq .bump (members .fieldDecl .fieldDeclaration))
  | .fieldDecl =>
    when (.not (.current .semicolon)) (.node .fieldDecl (.seq
      (.branch (.ask embeddedField)
        (.node .anonFieldDef
          (.branch (.ask (.current .star))
            (.node .pointerType (.seq .bump (.call .typeName)))
            (.call .typeName)))
        (.seq (definitions .fieldDef) (.call .typ)))
      (when (.currentAny [.string, .rawString]) (.node .tag .bump))))
  | .interfaceType => .node .interfaceType (.seq .bump (members .interfaceElement .interfaceElement))
  | .interfaceElement =>
    choose
      [(.and (.current .ident) (.next 1 .leftParen),
        .node .methodSpec (.seq .bump (.call .signature))),
       (.not (.current .semicolon),
        .node .embeddedInterface (.loop (all [eat .tilde, .call .typ, eat .pipe])))]
      no
  | .block =>
    .node .block (all
      [expect .leftBrace, .header false (.call .statementList), expect .rightBrace])
  | .statementList =>
    repeatWhile (.not (.or (.currentAny [.rightBrace, .caseKw, .defaultKw]) .atEnd))
      (.seq (progress (.call .statement) .statement) endStatement)
  | .statement =>
    choose
      [(.current .varKw, .node .declarationStatement (.call .varDecl)),
       (.current .constKw, .node .declarationStatement (.call .constDecl)),
       (.current .typeKw, .node .declarationStatement (.call .typeDecl)),
       (.current .returnKw,
        .node .returnStatement (.seq .bump (when (.not .terminator) (.call .expressionList)))),
       (.current .ifKw, .call .ifStatement),
       (.current .forKw, .call .forStatement),
       (.current .switchKw, .call .switchStatement),
       (.current .selectKw, .call .selectStatement),
       (.current .goKw, .node .goStatement (.seq .bump (.call .expression))),
       (.current .deferKw, .node .deferStatement (.seq .bump (.call .expression))),
       (.current .breakKw, jump .breakStatement),
       (.current .continueKw, jump .continueStatement),
       (.current .gotoKw, jump .gotoStatement),
       (.current .fallthroughKw, .node .fallthroughStatement .bump),
       (.current .leftBrace, .call .block),
       (.current .semicolon, yes),
       (.and (.current .ident) (.next 1 .colon),
        .node .labeledStatement (all
          [.bump, .bump,
           when (.not (.or (.current .rightBrace) .atEnd)) (.call .statement)]))]
      (.call .simpleStatement)
  | .simpleStatement =>
    .marked (.branch plainStatement yes (.wrap .exprStatement yes))
  | .headerPart => plainStatement
  | .shortVarDecl =>
    .node .shortVarDecl (all
      [definitions .varDef, expect .colonEq, .call .expressionList])
  | .ifStatement =>
    .node .ifStatement (all
      [.bump,
       .header true (.branch (.call .headerPart)
         (.branch (expect .semicolon) (.call .expression) no) no),
       .call .block,
       .branch (eat .elseKw)
         (.branch (.ask (.current .ifKw)) (.call .ifStatement) (.call .block)) no])
  | .forStatement =>
    .node .forStatement (all [.bump, .header true (.call .forHeader), .call .block])
  | .forHeader =>
    choose
      [(.current .leftBrace, yes),
       (.current .rangeKw, .node .rangeClause (.seq .bump (.call .expression)))]
      (.marked (.branch (.ask (.and .shortDefinition .rangeDefinition))
        (.node .rangeClause (all [definitions .varDef, .bump, .bump, .call .expression]))
        (.branch forInit (when (.current .semicolon) (.wrap .forClause (all
          [.bump,
           when (.not (.current .semicolon)) (.call .expression),
           expect .semicolon,
           when (.not (.current .leftBrace)) (.call .simpleStatement)]))) no)))
  | .switchStatement =>
    .node .switchStatement (all
      [.bump,
       .header true (when (.not (.current .leftBrace)) (.branch (.call .headerPart)
         (.branch (eat .semicolon)
           (when (.not (.current .leftBrace)) (.call .headerPart)) no) no)),
       clauses .caseClause])
  | .selectStatement => .node .selectStatement (.seq .bump (clauses .commClause))
  | .caseClause => clause .caseClause .expressionList
  | .commClause => clause .commClause .simpleStatement
  | .expressionList => .loop (.seq (.call .expression) (eat .comma))
  | .expression => .call (.binary 1)
  | .binary least =>
    .marked (.seq (.call .unary) (.loop (.branch (.ask .implicitEnd) no
      (choose
        ((operatorLevels.filter (least ≤ ·.precedence)).map fun level =>
          (.currentAny level.operators,
           .seq (.wrap level.kind (.seq .bump (.call (.binary (level.precedence + 1))))) yes))
        no))))
  | .unary =>
    .branch (.ask (.and
        (.currentAny [.plus, .minus, .bang, .caret, .star, .amp, .arrow, .tilde])
        (.not (.and (.current .arrow) (.next 1 .chanKw)))))
      (.node .unaryExpr (.seq .bump (.call .unary)))
      (.call .primary)
  | .primary =>
    .marked (.seq (.call .operand) (.loop (.branch (.ask .implicitEnd) no
      (choose
        [(.and (.current .dot) (.next 1 .leftParen),
          .seq (.wrap .typeAssertionExpr (all
            [.bump, .bump, .branch (eat .typeKw) yes (.call .typ), expect .rightParen])) yes),
         (.current .dot,
          .seq (.wrap .referenceExpr (.seq .bump
            (.branch (.ask (.and (.current .ident) (.not (.newlineBefore 0)))) .bump
              (.fail .selector)))) yes),
         (.current .leftParen, .seq (.wrap .callExpr (.call .argumentList)) yes),
         (.and (.current .leftBracket) .bracketColon, .seq (.wrap .sliceExpr indices) yes),
         (.current .leftBracket, .seq (.wrap .indexExpr indices) yes)]
        no))))
  | .operand =>
    choose
      [(.compositeName, .node .compositeLit (.seq (.call .typeName) (.call .literalValue))),
       (.current .ident, .node .referenceExpr .bump),
       (.currentAny Kind.literals, .node .literal .bump),
       (.current .leftParen,
        .node .parenExpr (all [.bump, .header false (.call .expression), expect .rightParen])),
       (.current .funcKw,
        .marked (all
          [.bump, .call .signature,
           .branch (.ask (.current .leftBrace)) (.wrap .functionLit (.call .block))
             (.wrap .functionType yes)])),
       (.currentAny [.leftBracket, .mapKw, .structKw, .chanKw, .interfaceKw, .arrow],
        .marked (.seq (.call .typ)
          (choose
            [(.current .leftBrace, .wrap .compositeLit (.call .literalValue)),
             (.current .leftParen,
              .wrap .conversionExpr (all
                [.bump, .header false (.call .expression), eat .comma, expect .rightParen]))]
            yes)))]
      (.fail .expression)
  | .argumentList =>
    .node .argumentList (all
      [.bump,
       .header false (items .rightParen (.seq (.call .expression) (eat .ellipsis))),
       expect .rightParen])
  | .literalValue =>
    .node .literalValue (all
      [expect .leftBrace, .header false (items .rightBrace (.call .element)),
       expect .rightBrace])
  | .element =>
    .node .element (.branch (.ask (.and (.current .ident) (.next 1 .colon)))
      (all [.node .key (.node .fieldName .bump), .bump, .call .elementValue])
      (.marked (.seq (.call .elementValue)
        (when (.current .colon) (all [.wrap .key yes, .bump, .call .elementValue])))))
  | .elementValue =>
    .branch (.ask (.current .leftBrace)) (.call .literalValue) (.call .expression)

end GoNav.Grammar
