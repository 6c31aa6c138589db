import GoNav.Lookup

namespace GoNav

/-- The uses of a name: in an expression, in a type, and as the path of an import. -/
inductive ReferenceKind where
  | expr
  | typeName
  | importPath
  deriving DecidableEq, Repr

def Kind.referenceKind : Kind → Option ReferenceKind
  | .referenceExpr => some .expr
  | .typeReference => some .typeName
  | .importString => some .importPath
  | _ => none

/-- A use of a name at a node of a file. -/
structure Reference where
  kind : ReferenceKind
  file : FileId
  node : Node

/-- What stands before the dot of a reference. -/
inductive Qualifier where
  | reference (inner : Reference)
  /-- A composite literal of a type. -/
  | literal (typ : FileNode)
  /-- Any other expression; nothing is known of it. -/
  | other

namespace Reference

def ofNode? (file : FileId) (n : Node) : Option Reference :=
  n.kind.referenceKind.map (⟨·, file, n⟩)

/-- The token that is the name, or for an import the quoted path. -/
def nameLeaf (r : Reference) : Option Leaf :=
  match r.kind with
  | .importPath => r.node.tokens.find? fun l => l.kind == .string || l.kind == .rawString
  | _ => r.node.identifier

def name? (r : Reference) : Option String :=
  match r.kind with
  | .importPath => some r.node.unquoted
  | _ => r.node.identifierText

/-- The bytes of the name, or of the whole reference where it has none. -/
def range (r : Reference) : Nat × Nat :=
  match r.nameLeaf with
  | some leaf => (leaf.start, leaf.stop)
  | none => (r.node.start, r.node.stop)

def qualifier? (r : Reference) : Option Qualifier :=
  match r.kind with
  | .importPath => none
  | .typeName => (r.node.child .typeReference).map fun inner => .reference ⟨.typeName, r.file, inner⟩
  | .expr =>
    r.node.expression.map fun e =>
      if e.kind == .referenceExpr then .reference ⟨.expr, r.file, e⟩
      else
        match e.compositeType with
        | some typ => .literal ⟨r.file, typ⟩
        | none => .other

/-- A name in a type stands for a type or a package only. -/
def filter (r : Reference) : ScopeFilter :=
  match r.kind with
  | .typeName => .types
  | _ => .all

/-- The names of a file that are visible to a reference. -/
def scopeIn (ws : Workspace) (r : Reference) (file : FileId) (isLocal : Bool) : List Item :=
  match r.kind with
  | .importPath => []
  | _ => Scope.ofFile ws r.file r.node file isLocal r.filter

/-- Offers the names of a file that are visible to a reference. -/
def offerFile {σ : Type} (ws : Workspace) (r : Reference) (p : Processor σ) (file : FileId)
    (isLocal : Bool) (s : σ) : Flow σ :=
  match r.kind with
  | .importPath => .next s
  | _ => p.offerFile ws r.file r.node file isLocal r.filter s

/-- What the name of a reference stands for in one file. -/
def lookupIn (ws : Workspace) (r : Reference) (file : FileId) (isLocal : Bool) : Option Declaration :=
  r.name?.bind fun name => (r.offerFile ws (.resolving name) file isLocal none).state

/-- The names of files that are visible to a reference, one file after the other. -/
def collectFrom (ws : Workspace) (r : Reference) (files : List (FileId × Bool)) : List Item :=
  files.foldl (fun items (file, isLocal) => (r.offerFile ws .collecting file isLocal items).state) []

/-- The reference whose name or quoted path holds or touches a byte offset. Where it lies between two
tokens that might be one, the left one counts. -/
def at? (ws : Workspace) (file : FileId) (offset : Nat) : Option Reference :=
  (ws.file? file).bind fun f =>
    ((f.root.leavesAt offset).find? fun l =>
      l.kind == .ident || l.kind == .string || l.kind == .rawString).bind fun l =>
        ofNode? file l.parent

end Reference

end GoNav
