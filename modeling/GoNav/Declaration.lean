import GoNav.Workspace

namespace GoNav

/-- A node in the tree of a file. -/
structure FileNode where
  file : FileId
  node : Node

/-- Nodes are the same when they stand at the same place of the same file. -/
instance : BEq FileNode where
  beq a b := a.file == b.file && a.node == b.node

/-- What a name stands for: the node that introduces it, or the directory of a package. -/
inductive Declaration where
  | node (place : FileNode)
  | directory (path : Path)

instance : BEq Declaration where
  beq
    | .node a, .node b => a == b
    | .directory p, .directory q => p == q
    | _, _ => false

/-- The sorts of things that names stand for. -/
inductive NameKind where
  | package | imported | typ | function | method | field | variable | constant | parameter
  | receiver
  deriving DecidableEq, Repr

def NameKind.name : NameKind → String
  | .package => "Package"
  | .imported => "Import"
  | .typ => "Type"
  | .function => "Function"
  | .method => "Method"
  | .field => "Field"
  | .variable => "Variable"
  | .constant => "Constant"
  | .parameter => "Parameter"
  | .receiver => "Receiver"

/-- The sort of thing that a node of this kind introduces, if it introduces any. -/
def Kind.declares : Kind → Option NameKind
  | .importSpec => some .imported
  | .typeSpec => some .typ
  | .functionDecl => some .function
  | .methodDecl | .methodSpec => some .method
  | .fieldDef | .anonFieldDef => some .field
  | .varDef => some .variable
  | .constDef => some .constant
  | .paramDef => some .parameter
  | .receiver => some .receiver
  | _ => none

namespace Node

/-- The token that gives a declaring node its name. An import that is given no name has none. -/
def nameLeaf (n : Node) : Option Leaf :=
  match n.kind with
  | .importSpec => n.importAlias
  | .anonFieldDef => n.embeddedName
  | _ => n.identifier

/-- The name that a declaring node introduces. -/
def declaredName (n : Node) : Option String :=
  match n.kind with
  | .importSpec => n.localName
  | _ => n.nameLeaf.map Leaf.text

/-- The type that a declaring node gives to its name. A variable without one takes that of the
composite literal it is set to. -/
def declaredType (n : Node) : Option Node :=
  match n.kind with
  | .varDef => (n.specType .varSpec).or (n.varValue.bind compositeType)
  | .constDef => n.specType .constSpec
  | .paramDef => n.specType .paramDecl
  | .fieldDef => n.specType .fieldDecl
  | .receiver | .anonFieldDef | .typeSpec => n.typeExpr
  | _ => none

end Node

namespace Declaration

/-- The declaration that a node makes. -/
def ofNode? (file : FileId) (n : Node) : Option Declaration :=
  if n.kind.declares.isSome then some (.node ⟨file, n⟩) else none

def name? : Declaration → Option String
  | .node place => place.node.declaredName
  | .directory path => path.fileName?

def kind : Declaration → NameKind
  | .node place => place.node.kind.declares.getD .imported
  | .directory _ => .package

def file? : Declaration → Option FileId
  | .node place => some place.file
  | .directory _ => none

/-- The bytes of the whole declaration. -/
def fullRange? : Declaration → Option (Nat × Nat)
  | .node place => some (place.node.start, place.node.stop)
  | .directory _ => none

/-- The bytes of the name, or of the whole declaration where no token is the name. -/
def focusRange? : Declaration → Option (Nat × Nat)
  | .node place =>
    some (match place.node.nameLeaf with
      | some leaf => (leaf.start, leaf.stop)
      | none => (place.node.start, place.node.stop))
  | .directory _ => none

/-- The type that a declaration gives to its name. -/
def type? : Declaration → Option FileNode
  | .node place => place.node.declaredType.map (⟨place.file, ·⟩)
  | .directory _ => none

/-- The name with the package it belongs to; for an import its path, and for a package its
directory. -/
def qualifiedName? (ws : Workspace) : Declaration → Option String
  | .directory path => some path.text.display
  | .node place =>
    match place.node.kind with
    | .importSpec => place.node.importPath
    | _ =>
      match ws.package? place.file, place.node.declaredName with
      | some package, some name => some (package ++ "." ++ name)
      | _, _ => none

end Declaration

/-- A name that is visible somewhere, and what it stands for. An import whose package is not at hand
stands for nothing. -/
structure Item where
  kind : NameKind
  name : String
  declaration : Option Declaration

/-- The item of a declaration that has a name. -/
def Item.ofDeclaration? (d : Declaration) : Option Item :=
  d.name?.map fun name => ⟨d.kind, name, some d⟩

/-- What a name stands for by a list of items: the first of that name that stands for something. -/
def Item.find (name : String) (items : List Item) : Option Declaration :=
  items.findSome? fun item => if item.name = name then item.declaration else none

end GoNav
