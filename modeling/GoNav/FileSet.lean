import GoNav.Entries
import GoNav.Path

namespace GoNav

/-- The number under which a file is known. -/
structure FileId where
  number : Nat
  deriving DecidableEq, Repr, Inhabited

namespace FileId

/-- How a file number is shown. -/
def display (id : FileId) : String :=
  "file#" ++ toString id.number

/-- How a file number is shown for diagnosis. -/
def describe (id : FileId) : String :=
  "FileId(" ++ toString id.number ++ ")"

end FileId

/-- Paths and their numbers, to be looked up from either side, and the number that the next new path
gets. -/
structure FileTable where
  pathToId : List (Path × FileId) := []
  idToPath : List (FileId × Path) := []
  nextId : Nat := 0
  deriving Repr, Inhabited

namespace FileTable

def size (t : FileTable) : Nat :=
  t.pathToId.length

/-- The number of a path, if it has one. -/
def get? (t : FileTable) (p : Path) : Option FileId :=
  t.pathToId.lookup p

/-- The path with a number. -/
def path? (t : FileTable) (id : FileId) : Option Path :=
  t.idToPath.lookup id

/-- The number of a path, which gets the next one if it has none. -/
def assign (t : FileTable) (p : Path) : FileId × FileTable :=
  match t.get? p with
  | some id => (id, t)
  | none =>
    let id : FileId := ⟨t.nextId⟩
    (id,
      { pathToId := putEntry p id t.pathToId
        idToPath := putEntry id p t.idToPath
        nextId := t.nextId + 1 })

/-- The paths in the order in which they came. -/
def paths (t : FileTable) : List Path :=
  t.pathToId.map Prod.fst

/-- The three parts of a table tell the same: each path is there once, under its place in the order, and
the next number is the number of paths. -/
structure IsAligned (t : FileTable) : Prop where
  apart : t.paths.Pairwise fun p q => (p == q) = false
  numbers : t.pathToId.map Prod.snd = (List.range t.size).map FileId.mk
  inverse : t.idToPath = t.pathToId.map Prod.swap
  next : t.nextId = t.size

theorem isAligned_empty : IsAligned {} :=
  ⟨.nil, rfl, rfl, rfl⟩

namespace IsAligned

variable {t : FileTable} (aligned : t.IsAligned)
include aligned

/-- The next number has no path yet. -/
theorem lookup_next : t.idToPath.lookup ⟨t.nextId⟩ = none := by
  rw [List.lookup_eq_none_iff, aligned.inverse, aligned.next]
  intro entry member
  obtain ⟨⟨p, id⟩, among, rfl⟩ := List.mem_map.mp member
  have number : id ∈ (List.range t.size).map FileId.mk := aligned.numbers ▸ List.mem_map_of_mem among
  obtain ⟨n, below, rfl⟩ := List.mem_map.mp number
  have different := Nat.ne_of_gt (List.mem_range.mp below)
  simpa using different

theorem assign (p : Path) : (t.assign p).2.IsAligned := by
  unfold FileTable.assign
  cases missing : t.get? p with
  | some id => exact aligned
  | none =>
    have behind {id : FileId} : putEntry p id t.pathToId = t.pathToId ++ [(p, id)] :=
      putEntry_of_lookup_eq_none missing
    have known := List.lookup_eq_none_iff.mp missing
    dsimp only
    rw [behind, putEntry_of_lookup_eq_none aligned.lookup_next]
    constructor
    case apart =>
      simp only [paths, List.map_append, List.pairwise_append]
      refine ⟨aligned.apart, List.pairwise_singleton .., fun q member r last => ?_⟩
      obtain ⟨entry, among, rfl⟩ := List.mem_map.mp member
      cases List.mem_singleton.mp last
      have different : (p == entry.1) = false := by simpa only [bne, Bool.not_eq_true'] using known entry among
      rwa [BEq.comm] at different
    case numbers =>
      simp [size, List.range_succ, aligned.numbers, aligned.next]
    case inverse => simp [aligned.inverse]
    case next => simp [size, aligned.next]

end IsAligned

end FileTable

/-- The paths that have a number. A path keeps its number for ever, and the spelling by which it came
first. -/
structure FileSet where
  table : FileTable
  aligned : table.IsAligned
  deriving Repr

namespace FileSet

def empty : FileSet :=
  ⟨{}, FileTable.isAligned_empty⟩

instance : Inhabited FileSet :=
  ⟨empty⟩

def size (s : FileSet) : Nat :=
  s.table.size

/-- The number of a path, if it has one. -/
def get? (s : FileSet) (p : Path) : Option FileId :=
  s.table.get? p

/-- The path with a number. -/
def path? (s : FileSet) (id : FileId) : Option Path :=
  s.table.path? id

/-- The number of a path, which gets the next one if it has none. -/
def assign (s : FileSet) (p : Path) : FileId × FileSet :=
  ((s.table.assign p).1, ⟨(s.table.assign p).2, s.aligned.assign p⟩)

end FileSet

end GoNav
