import GoNav.ImportTable

namespace GoNav

/-- What a name may stand for: anything, or only a type or a package. -/
inductive ScopeFilter where
  | all
  | types
  deriving DecidableEq, Repr

def ScopeFilter.accepts : ScopeFilter → Declaration → Bool
  | .all, _ => true
  | .types, .directory _ => true
  | .types, .node place => place.node.kind == .typeSpec || place.node.kind == .importSpec

namespace Scope

/-- The items of declaring nodes in one file. -/
def itemsOf (file : FileId) (filter : ScopeFilter) (nodes : List Node) : List Item :=
  ((nodes.map fun n => Declaration.node ⟨file, n⟩).filter filter.accepts).filterMap
    Item.ofDeclaration?

/-- The nodes that a declaration inside a function body introduces names by. -/
def localDeclared (declaration : Node) : List Node :=
  match declaration.kind with
  | .varDecl => (declaration.childrenOf .varSpec).flatMap (·.childrenOf .varDef)
  | .constDecl => (declaration.childrenOf .constSpec).flatMap (·.childrenOf .constDef)
  | .typeDecl => declaration.childrenOf .typeSpec
  | _ => []

/-- The nodes that a part of a function introduces names by, for what comes after it. -/
def introducedBy (n : Node) : List Node :=
  match n.kind with
  | .shortVarDecl | .rangeClause => n.childrenOf .varDef
  | .declarationStatement => n.children.flatMap localDeclared
  | .forClause => (n.childrenOf .shortVarDecl).flatMap (·.childrenOf .varDef)
  | .signature =>
    let results := (n.child .result).bind (·.child .parameters)
    ((n.child .parameters).toList ++ results.toList).flatMap Node.paramDefinitions
  | .receiver => if n.identifier.isSome then [n] else []
  | _ => []

/-- The nodes that introduce names before an element in what encloses it: from the innermost node
outward, and in each of them from the last part that is over before the element. -/
def enclosing (element : Node) : List Node :=
  (element.ancestors.takeWhile (·.kind != .sourceFile)).flatMap fun ancestor =>
    (ancestor.children.takeWhile (·.stop ≤ element.start)).reverse.flatMap introducedBy

/-- The names that are visible at an element by what encloses it. -/
def walkUp (file : FileId) (element : Node) (filter : ScopeFilter) : List Item :=
  itemsOf file filter (enclosing element)

/-- The nodes at the top level of a file that introduce names in its package. A method is no name of
the package. -/
def topLevelDeclared (root : Node) : List Node :=
  root.constSpecs.flatMap (·.childrenOf .constDef) ++
    root.varSpecs.flatMap (·.childrenOf .varDef) ++
    root.childrenOf .functionDecl ++
    root.typeSpecs

/-- The names that a file adds to its package. -/
def topLevel (file : FileId) (root : Node) (filter : ScopeFilter) : List Item :=
  itemsOf file filter (topLevelDeclared root)

/-- The names of a file's imports. -/
def importNames (ws : Workspace) (file : FileId) (table : ImportTable) : List Item :=
  table.names.map fun name =>
    let declaration := table.resolve ws file name
    ⟨(declaration.map Declaration.kind).getD .imported, name, declaration⟩

/-- The names that a file adds to its package, if it is at hand. -/
def topLevelOf (ws : Workspace) (file : FileId) (filter : ScopeFilter) : List Item :=
  match ws.file? file with
  | none => []
  | some f => topLevel file f.root filter

/-- The names of the packages that a file imports without a qualifier. -/
def dotImported (ws : Workspace) (file : FileId) (table : ImportTable) (filter : ScopeFilter) :
    List Item :=
  (table.dotPaths.filterMap (ws.importDirectory? file)).flatMap fun dir =>
    (ws.packageFiles dir).flatMap (topLevelOf ws · filter)

/-- The names of a file that are visible at an element of the file `home`. Only in local mode are
the names that enclose the element among them, and the imports of the file. -/
def ofFile (ws : Workspace) (home : FileId) (element : Node) (file : FileId) (isLocal : Bool)
    (filter : ScopeFilter) : List Item :=
  match ws.file? file with
  | none => []
  | some f =>
    let table := ImportTable.ofFile f.root
    (if isLocal && file == home then walkUp file element filter else []) ++
      topLevel file f.root filter ++
      (if isLocal then importNames ws file table ++ dotImported ws file table filter else [])

/-- The files in which a name without a qualifier is looked for, and whether in local mode: the file
itself, the others of its package, and the file of predeclared names. -/
def unqualifiedFiles (ws : Workspace) (file : FileId) : List (FileId × Bool) :=
  let package := ws.package? file
  let siblings := ((ws.directoryOf? file).toList.flatMap ws.filesIn).filter fun sibling =>
    sibling != file && (package.isNone || ws.package? sibling == package)
  let builtin := if ws.isBuiltinFile file then [] else ws.builtinFile?.toList
  (file, true) :: siblings.map (·, false) ++ builtin.map (·, true)

/-- The directory of the package that a declaration stands for. -/
def packageDirectory? (ws : Workspace) : Declaration → Option Path
  | .directory path => some path
  | .node place =>
    match place.node.kind with
    | .importSpec => place.node.importPath.bind (ws.importDirectory? place.file)
    | _ => none

end Scope

end GoNav
