import GoNav.Disk
import GoNav.Proofs.Placement
import GoNav.Proofs.RelativePath

namespace GoNav

namespace Disk

/-! Directory trees -/

/-- Whether a text can be the name of an entry: it is a path of one component that leads down. -/
def isName (name : OsText) : Bool :=
  Path.Component.ofPiece name == some (.name name) && !name.bytes.contains Path.slash

mutual

/-- Whether the entries of every directory have names, and no two of one directory the same. -/
def isTree : Disk → Bool
  | .file _ => true
  | .directory entries => decide (entries.map Prod.fst).Nodup && areTrees entries

def areTrees : List (OsText × Disk) → Bool
  | [] => true
  | (name, there) :: rest => isName name && there.isTree && areTrees rest

end

theorem areTrees_iff {entries : List (OsText × Disk)} :
    areTrees entries = true ↔ ∀ entry ∈ entries, isName entry.1 = true ∧ entry.2.isTree = true := by
  induction entries with
  | nil => simp [areTrees]
  | cons entry rest ih => simp [areTrees, ih, and_assoc]

theorem isTree_directory_iff {entries : List (OsText × Disk)} :
    (directory entries).isTree = true ↔
      (entries.map Prod.fst).Nodup ∧ ∀ entry ∈ entries, isName entry.1 = true ∧ entry.2.isTree = true := by
  rw [isTree, Bool.and_eq_true, decide_eq_true_iff, areTrees_iff]

/-- An entry of a directory tree is what is found under its name. -/
theorem lookup_eq_some_iff {entries : List (OsText × Disk)} (tree : (directory entries).isTree = true)
    {name : OsText} {there : Disk} : entries.lookup name = some there ↔ (name, there) ∈ entries := by
  constructor
  · intro found
    obtain ⟨before, behind, split, _⟩ := List.lookup_eq_some_iff.mp found
    simp [split]
  · exact lookup_of_mem (isTree_directory_iff.mp tree).1

end Disk

namespace Path

/-! Paths that lead down -/

section Name

variable {p : Path} {name : OsText} (named : Disk.isName name = true)
include named

end Name

section Descend

variable {p : Path} {names others : List OsText} (named : ∀ name ∈ names, Disk.isName name = true)
  (named' : ∀ name ∈ others, Disk.isName name = true)
include named named'

end Descend

end Path

namespace Disk

/-! Going along paths that lead down -/

variable {disk there : Disk} {path : Path}

end Disk

end GoNav
