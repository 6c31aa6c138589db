import GoNav.Proofs.DiskPaths
import GoNav.Proofs.PathOrder
import GoNav.Proofs.Sessions

namespace GoNav

namespace Loading

/-! The files at and below a place -/

variable {path p : Path} {here : Disk}

end Loading

/-! Loading the sources of a directory -/

namespace Workspace

section Load

variable {ws ws' : Workspace} {disk : Disk} {tests : Bool} {path : Path} {paths : List Path}
  {entries : List (OsText × Disk)} (reached : disk.get path = .ok (.directory entries))
  (listed : Loading.sourcePaths disk tests path = .ok paths)
include reached

include listed

end Load

end Workspace

end GoNav
