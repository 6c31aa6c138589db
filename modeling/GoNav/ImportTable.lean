import GoNav.Declaration

namespace GoNav

/-- An import under the name that it has in its file. -/
inductive ImportEntry where
  /-- An import that is given a name; it stands for itself. -/
  | spec (node : Node)
  /-- An import that is not; it stands for the directory of its path. -/
  | path (node : Node) (path : String)

def ImportEntry.node : ImportEntry → Node
  | .spec node => node
  | .path node _ => node

/-- The imports of a file by name. Names stand in the order of their first import, and the imports of
one name in the order of the file. -/
structure ImportTable where
  entries : List (String × List ImportEntry)

namespace ImportTable

/-- Adds an import under a name. -/
def insert (name : String) (entry : ImportEntry) :
    List (String × List ImportEntry) → List (String × List ImportEntry)
  | [] => [(name, [entry])]
  | (key, found) :: rest =>
    if key = name then (key, found ++ [entry]) :: rest else (key, found) :: insert name entry rest

/-- The entry for an import, unless it has neither a name nor a path. -/
def entryOf? (spec : Node) : Option (String × ImportEntry) :=
  match spec.localName with
  | none => none
  | some name =>
    if spec.importAlias.isSome then some (name, .spec spec)
    else spec.importPath.map fun path => (name, .path spec path)

def ofFile (file : Node) : ImportTable :=
  ⟨(file.imports.filterMap entryOf?).foldl (fun table (name, entry) => insert name entry table) []⟩

def get (table : ImportTable) (name : String) : List ImportEntry :=
  (table.entries.lookup name).getD []

/-- The names that a program can use. -/
def names (table : ImportTable) : List String :=
  (table.entries.map Prod.fst).filter fun name => name != "." && name != "_"

/-- The paths of the packages whose names are visible without a qualifier. -/
def dotPaths (table : ImportTable) : List String :=
  (table.get ".").filterMap (·.node.importPath)

/-- What a name stands for: the first import that is given it, or the first directory found. -/
def resolve (table : ImportTable) (ws : Workspace) (file : FileId) (name : String) :
    Option Declaration :=
  (table.get name).findSome? fun entry =>
    match entry with
    | .spec node => some (.node ⟨file, node⟩)
    | .path _ path => (ws.importDirectory? file path).map .directory

end ImportTable

end GoNav
