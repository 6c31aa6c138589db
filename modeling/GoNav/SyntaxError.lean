import GoNav.Kind

namespace GoNav

/-- What the parser misses or objects to. -/
inductive SyntaxError.Cause where
  | missing (kind : Kind)
  | packageClause | declaration | specification | lateImport | importPath | parameter | typ
  | fieldDeclaration | interfaceElement | terminator | statement | caseOrDefault | selector
  | expression
  deriving DecidableEq, Repr

/-- A syntax error and the bytes it points at. -/
structure SyntaxError where
  cause : SyntaxError.Cause
  start : Nat
  stop : Nat
  deriving DecidableEq, Repr

namespace SyntaxError

def Cause.message : Cause → String
  | .missing kind => "expected " ++ kind.name
  | .packageClause => "expected package clause"
  | .declaration => "expected declaration"
  | .specification => "expected specification"
  | .lateImport => "imports must appear before other declarations"
  | .importPath => "expected import path"
  | .parameter => "expected parameter"
  | .typ => "expected type"
  | .fieldDeclaration => "expected field declaration"
  | .interfaceElement => "expected method or embedded interface"
  | .terminator => "expected ';' or newline"
  | .statement => "expected statement"
  | .caseOrDefault => "expected case or default"
  | .selector => "expected selector"
  | .expression => "expected expression"

def message (e : SyntaxError) : String :=
  e.cause.message

end SyntaxError

end GoNav
