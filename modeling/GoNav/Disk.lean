import GoNav.Entries
import GoNav.Path

namespace GoNav

/-- What stands under a name on disk. -/
inductive Disk where
  | file (bytes : ByteArray)
  | directory (entries : List (OsText × Disk))

/-- Why a file cannot be read. -/
inductive DiskError where
  | notFound
  | notADirectory
  | isADirectory
  | invalidText
  deriving DecidableEq, Repr

def DiskError.message : DiskError → String
  | .notFound => "No such file or directory (os error 2)"
  | .notADirectory => "Not a directory (os error 20)"
  | .isADirectory => "Is a directory (os error 21)"
  | .invalidText => "stream did not contain valid UTF-8"

namespace Disk

/-- A disk with nothing on it. -/
def empty : Disk :=
  .directory []

def isDirectory : Disk → Bool
  | .file _ => false
  | .directory _ => true

def entries : Disk → List (OsText × Disk)
  | .file _ => []
  | .directory entries => entries

/-- Goes along the pieces of a path, `above` being the directories around the place reached. A `..`
leads out of the directory in which it is met, and every piece needs a directory to be met in. -/
def walk (here : Disk) (above : List Disk) : List OsText → Except DiskError Disk
  | [] => .ok here
  | piece :: rest =>
    match here with
    | .file _ => .error .notADirectory
    | .directory entries =>
      if piece = "" ∨ piece = "." then walk here above rest
      else if piece = ".." then walk (above.headD here) above.tail rest
      else
        match entries.lookup piece with
        | none => .error .notFound
        | some there => walk there (here :: above) rest

/-- What stands at a path, as seen from the root. The empty path leads nowhere. -/
def get (disk : Disk) (path : Path) : Except DiskError Disk :=
  if path.text = "" then .error .notFound else disk.walk [] path.pieces

def hasDirectory (disk : Disk) (path : Path) : Bool :=
  match disk.get path with
  | .ok there => there.isDirectory
  | .error _ => false

/-- The text of a file. -/
def readText (disk : Disk) (path : Path) : Except DiskError String :=
  match disk.get path with
  | .error cause => .error cause
  | .ok (.directory _) => .error .isADirectory
  | .ok (.file bytes) =>
    match String.fromUTF8? bytes with
    | some text => .ok text
    | none => .error .invalidText

/-- Changes what stands behind the given names, with the directories on the way. -/
def update (change : Option Disk → Disk) : List OsText → Option Disk → Disk
  | [], here => change here
  | name :: rest, here =>
    let entries := (here.map entries).getD []
    .directory (putEntry name (update change rest (entries.lookup name)) entries)

/-- Writes a file, with the directories around it. -/
def writeFile (disk : Disk) (path : Path) (bytes : ByteArray) : Disk :=
  update (fun _ => .file bytes) (path.pieces.filter fun piece => piece != "") (some disk)

/-- Makes a directory, with the directories around it, unless it is there. -/
def makeDirectory (disk : Disk) (path : Path) : Disk :=
  update (fun here => .directory ((here.map entries).getD [])) (path.pieces.filter fun piece => piece != "")
    (some disk)

end Disk

end GoNav
