import GoNav.Config
import GoNav.FileSet
import GoNav.Node.Parts
import GoNav.Parse
import GoNav.Sorted

namespace GoNav

/-- A source file with its syntax and the package that it declares. -/
structure SourceFile where
  path : Path
  text : String
  parse : Parse
  package : Option String
  parse_eq : parse = .ofText text

namespace SourceFile

def ofText (path : Path) (text : String) : SourceFile :=
  let parse := Parse.ofText text
  ⟨path, text, parse, (Node.root parse.tree).packageName, rfl⟩

def root (f : SourceFile) : Node :=
  .root f.parse.tree

def directory? (f : SourceFile) : Option Path :=
  f.path.parent?

def name? (f : SourceFile) : Option String :=
  f.path.fileName?

/-- Whether a file stands directly in a directory. -/
def isIn (f : SourceFile) (dir : Path) : Bool :=
  f.directory? == some dir

end SourceFile

/-- The source files at hand, in the order in which they came, and where to look for others. No two
files have one number. A directory is there when a file is in it. -/
structure Workspace where
  fileSet : FileSet := .empty
  files : List (FileId × SourceFile) := []
  config : Config := {}
  distinct : (files.map Prod.fst).Nodup := by exact List.nodup_nil

namespace Workspace

/-- Takes in a file under a number, whatever its path. -/
def insert (ws : Workspace) (id : FileId) (f : SourceFile) : Workspace :=
  { ws with files := putEntry id f ws.files, distinct := nodup_keys_putEntry ws.distinct }

def file? (ws : Workspace) (id : FileId) : Option SourceFile :=
  ws.files.lookup id

/-- Gives the file at a path a text. -/
def setText (ws : Workspace) (path : Path) (text : String) : FileId × Workspace :=
  let path := path.normalize
  let (id, fileSet) := ws.fileSet.assign path
  (id, { ws with fileSet }.insert id (.ofText path text))

/-- The number of a file that is at hand. -/
def fileId? (ws : Workspace) (path : Path) : Option FileId :=
  (ws.fileSet.get? path.normalize).filter fun id => (ws.file? id).isSome

/-- Takes a file away. Its path keeps its number. -/
def remove (ws : Workspace) (path : Path) : Option FileId × Workspace :=
  match ws.fileId? path with
  | none => (none, ws)
  | some id =>
    (some id,
      { ws with
        files := ws.files.filter (·.1 != id)
        distinct := ws.distinct.sublist (List.filter_sublist.map Prod.fst) })

/-- The file at a path that is given as seen from a directory. -/
def resolveRelative (ws : Workspace) (dir relative : Path) : Option FileId :=
  ws.fileId? (dir.join relative)

def package? (ws : Workspace) (id : FileId) : Option String :=
  (ws.file? id).bind SourceFile.package

def directoryOf? (ws : Workspace) (id : FileId) : Option Path :=
  (ws.file? id).bind SourceFile.directory?

/-- Orders files by path, and files of one path by number. -/
def fileBefore (a b : FileId × SourceFile) : Bool :=
  a.2.path.before b.2.path || (a.2.path == b.2.path && a.1.number < b.1.number)

/-- The files directly in a directory, in the order of their paths. -/
def filesIn (ws : Workspace) (dir : Path) : List FileId :=
  (sorted fileBefore (ws.files.filter (·.2.isIn dir))).map Prod.fst

def hasDirectory (ws : Workspace) (dir : Path) : Bool :=
  ws.files.any (·.2.isIn dir)

def isTestPackage (package : String) : Bool :=
  "_test".toList.isSuffixOf package.toList

/-- The package in a directory: one that is called like the directory, or else the first that is not
a test package, or else the first. -/
def packageOfDirectory? (ws : Workspace) (dir : Path) : Option String :=
  let packages := (ws.filesIn dir).filterMap ws.package?
  (packages.find? (some · == dir.fileName?)).or
    ((packages.find? (!isTestPackage ·)).or packages.head?)

/-- The files of the package in a directory. -/
def packageFiles (ws : Workspace) (dir : Path) : List FileId :=
  let package := ws.packageOfDirectory? dir
  (ws.filesIn dir).filter fun id => package.isNone || ws.package? id == package

/-- Whether an import path is given as seen from the directory of the importing file. -/
def isRelativeImport (importPath : String) : Bool :=
  importPath == "." || importPath == ".." ||
    "./".toList.isPrefixOf importPath.toList || "../".toList.isPrefixOf importPath.toList

/-- The directory that an import path names in a file: of those that it may be, the first that is
there. -/
def importDirectory? (ws : Workspace) (id : FileId) (importPath : String) : Option Path :=
  if importPath = "" then none
  else
    let roots :=
      if isRelativeImport importPath then (ws.directoryOf? id).toList else ws.config.importRoots
    (roots.map fun dir => (dir.join ⟨importPath⟩).normalize).find? ws.hasDirectory

/-- The file of predeclared names, if it is at hand. -/
def builtinFile? (ws : Workspace) : Option FileId :=
  ws.config.builtinFile?.bind ws.fileId?

/-- Whether a file is called like the file of predeclared names. -/
def isBuiltinFile (ws : Workspace) (id : FileId) : Bool :=
  match (ws.file? id).bind SourceFile.name?, ws.config.builtinFileName? with
  | some name, some builtin => name == builtin
  | _, _ => false

end Workspace

end GoNav
