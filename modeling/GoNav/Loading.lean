import GoNav.Disk
import GoNav.Workspace

namespace GoNav

/-- Why sources cannot be loaded. -/
inductive LoadError where
  | notADirectory (path : Path)
  | unlisted (path : Path) (cause : DiskError)
  | unread (path : Path) (cause : DiskError)

def LoadError.message : LoadError → String
  | .notADirectory path => "directory not found: " ++ path.text.display
  | .unlisted path cause =>
    "failed to walk " ++ path.text.display ++ ": IO error for operation on " ++ path.text.display ++ ": " ++
      cause.message
  | .unread path cause => "failed to read " ++ path.text.display ++ ": " ++ cause.message

namespace Loading

/-- Directories that hold no packages: those called `testdata`, and those whose name starts with a dot
or an underscore. -/
def isIgnored (name : OsText) : Bool :=
  name == "testdata" || name.bytes.head? == some '.'.toUInt8 || name.bytes.head? == some '_'.toUInt8

/-- Whether a file is a source file to be loaded, by its name. A name that consists of other bytes than
characters is not that of a source. -/
def isWanted (tests : Bool) (path : Path) : Bool :=
  match path.fileName? with
  | none => false
  | some name =>
    ".go".toList.isSuffixOf name.toList && (tests || !"_test.go".toList.isSuffixOf name.toList)

mutual

/-- The files at and below a place on disk that is reached by a path. Ignored directories below it
are left out. -/
def filesFrom (path : Path) : Disk → List Path
  | .file _ => [path]
  | .directory entries => filesAmong path entries

def filesAmong (path : Path) : List (OsText × Disk) → List Path
  | [] => []
  | (name, there) :: rest =>
    (if there.isDirectory && isIgnored name then [] else filesFrom (path.join ⟨name⟩) there) ++
      filesAmong path rest

end

/-- The source files at and below a path, in the order of their paths. -/
def sourcePaths (disk : Disk) (tests : Bool) (path : Path) : Except LoadError (List Path) :=
  match disk.get path with
  | .error cause => .error (.unlisted path cause)
  | .ok there => .ok (sorted Path.before ((filesFrom path there).filter (isWanted tests)))

/-- Reads and parses a file. -/
def readSource (disk : Disk) (path : Path) : Except LoadError SourceFile :=
  match disk.readText path with
  | .error cause => .error (.unread path cause)
  | .ok text => .ok (.ofText path.normalize text)

end Loading

namespace Workspace

/-- Takes in files that are read, after all of them have got their numbers. -/
def takeIn (ws : Workspace) (files : List SourceFile) : Workspace :=
  let fileSet := files.foldl (fun s f => (s.assign f.path).2) ws.fileSet
  files.foldl (fun ws f => ws.insert (fileSet.assign f.path).1 f) { ws with fileSet }

/-- Loads one file. -/
def loadFile (ws : Workspace) (disk : Disk) (path : Path) : Except LoadError (FileId × Workspace) :=
  match Loading.readSource disk path with
  | .error e => .error e
  | .ok f =>
    let (id, fileSet) := ws.fileSet.assign f.path
    .ok (id, { ws with fileSet }.insert id f)

/-- Loads the source files below a directory, and says how many. Files that cannot be read are left
out. -/
def loadDirectory (ws : Workspace) (disk : Disk) (tests : Bool) (path : Path) :
    Except LoadError (Nat × Workspace) :=
  if disk.hasDirectory path then
    match Loading.sourcePaths disk tests path with
    | .error e => .error e
    | .ok paths =>
      let files := paths.filterMap fun p => (Loading.readSource disk p).toOption
      .ok (files.length, ws.takeIn files)
  else .error (.notADirectory path)

/-- Loads the sources of the standard library, without tests. Their directory becomes the one that is
configured, if none is. Where there are none, nothing is loaded. -/
def loadSdk (ws : Workspace) (disk : Disk) (path : Path) : Except LoadError (Nat × Workspace) :=
  if disk.hasDirectory path then
    let config :=
      if ws.config.sdkSrc.isNone then { ws.config with sdkSrc := some path } else ws.config
    { ws with config }.loadDirectory disk false path
  else .ok (0, ws)

end Workspace

end GoNav
