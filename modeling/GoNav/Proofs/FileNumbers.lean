import GoNav.FileSet
import Mathlib.Data.List.Basic

namespace GoNav

/-! Looking up keys that are told apart by a test -/

section Lookup

variable {κ α : Type} [BEq κ] [EquivBEq κ] {entries : List (κ × α)} {key : κ} {value : α}

theorem lookup_congr {other : κ} (same : (key == other) = true) : entries.lookup key = entries.lookup other := by
  induction entries with
  | nil => rfl
  | cons entry rest ih =>
    obtain ⟨first, there⟩ := entry
    rw [List.lookup_cons, List.lookup_cons, BEq.congr_left same, ih]

/-- Where no two keys are alike, a value is found under all keys that are like its own. -/
theorem lookup_eq_some_iff (apart : (entries.map Prod.fst).Pairwise fun a b => (a == b) = false) :
    entries.lookup key = some value ↔ ∃ other, (other, value) ∈ entries ∧ (other == key) = true := by
  induction entries with
  | nil => simp
  | cons entry rest ih =>
    obtain ⟨first, there⟩ := entry
    obtain ⟨different, later⟩ := List.pairwise_cons.mp apart
    rw [List.lookup_cons]
    split
    · rename_i same
      constructor
      · rintro ⟨⟩
        exact ⟨first, List.mem_cons_self .., BEq.symm same⟩
      · rintro ⟨other, member, alike⟩
        rcases List.mem_cons.mp member with here | behind
        · cases here
          rfl
        · have distinct := different other (List.mem_map_of_mem behind)
          rw [BEq.symm (BEq.trans alike same)] at distinct
          cases distinct
    · rename_i unlike
      rw [ih later]
      refine exists_congr fun other => and_congr_left fun alike => ?_
      rw [List.mem_cons, or_iff_right]
      rintro ⟨⟩
      rw [BEq.symm alike] at unlike
      cases unlike

end Lookup

namespace FileTable

variable {t : FileTable} {p q : Path} {id : FileId}

theorem size_eq (t : FileTable) : t.size = t.paths.length := by
  rw [size, paths, List.length_map]

theorem get?_eq_none_iff : t.get? p = none ↔ ∀ q ∈ t.paths, (q == p) = false := by
  rw [get?, List.lookup_eq_none_iff, paths, List.forall_mem_map]
  refine forall₂_congr fun entry _ => ?_
  rw [BEq.comm, bne, Bool.not_eq_true']

theorem get?_congr (same : (p == q) = true) : t.get? p = t.get? q :=
  lookup_congr same

theorem assign_of_get? (found : t.get? p = some id) : t.assign p = (id, t) := by
  simp only [assign, found]

/-- A path that has no number comes behind all others and gets the next one. -/
theorem assign_of_get?_eq_none (missing : t.get? p = none) :
    (t.assign p).1 = ⟨t.nextId⟩ ∧ (t.assign p).2.paths = t.paths ++ [p] := by
  simp only [assign, missing, paths, putEntry_of_lookup_eq_none missing, List.map_append, List.map_cons,
    List.map_nil, and_self]

/-- The second table has a number for each path that the first has one for, and it is the same. -/
def Extends (t u : FileTable) : Prop :=
  ∀ p id, t.get? p = some id → u.get? p = some id

namespace IsAligned

variable (aligned : t.IsAligned)
include aligned

/-! The list of paths that a table stands for -/

theorem mem_pathToId_iff : (p, id) ∈ t.pathToId ↔ t.paths[id.number]? = some p := by
  have placed (n : Nat) : t.pathToId[n]? = t.paths[n]?.map (·, ⟨n⟩) := by
    have number : (t.pathToId.map Prod.snd)[n]? = ((List.range t.size).map FileId.mk)[n]? := by
      rw [aligned.numbers]
    rw [paths, List.getElem?_map, Option.map_map]
    rw [List.getElem?_map, List.getElem?_map] at number
    cases entry : t.pathToId[n]? with
    | none => rfl
    | some pair =>
      obtain ⟨bound, _⟩ := List.getElem?_eq_some_iff.mp entry
      rw [entry, size, List.getElem?_range bound] at number
      exact congrArg some (Prod.ext rfl (Option.some.inj number))
  constructor
  · intro member
    obtain ⟨n, here⟩ := List.mem_iff_getElem?.mp member
    have shown := (placed n).symm.trans here
    obtain ⟨r, stands, same⟩ := Option.map_eq_some_iff.mp shown
    cases same
    exact stands
  · intro stands
    refine List.mem_iff_getElem?.mpr ⟨id.number, ?_⟩
    rw [placed, stands]
    rfl

/-- A path is looked up as in the list of paths. -/
theorem get?_eq_some_iff : t.get? p = some id ↔ t.paths.findIdx? (· == p) = some id.number := by
  rw [get?, lookup_eq_some_iff aligned.apart, List.findIdx?_eq_some_iff_getElem]
  constructor
  · rintro ⟨q, member, same⟩
    obtain ⟨bound, here⟩ := List.getElem?_eq_some_iff.mp (aligned.mem_pathToId_iff.mp member)
    refine ⟨bound, here ▸ same, fun j earlier alike => ?_⟩
    have different := List.pairwise_iff_getElem.mp aligned.apart j id.number (by omega) bound earlier
    rw [here, BEq.trans alike (BEq.symm same)] at different
    cases different
  · rintro ⟨bound, same, _⟩
    exact ⟨_, aligned.mem_pathToId_iff.mpr (List.getElem?_eq_getElem bound), same⟩

/-- A number is looked up as in the list of paths. -/
theorem path?_eq (id : FileId) : t.path? id = t.paths[id.number]? := by
  have apart : (t.idToPath.map Prod.fst).Pairwise fun a b => (a == b) = false := by
    have keys : t.idToPath.map Prod.fst = (List.range t.size).map FileId.mk := by
      rw [aligned.inverse, List.map_map, ← aligned.numbers]
      rfl
    rw [keys, List.pairwise_map]
    refine List.pairwise_lt_range.imp fun less => ?_
    simpa using Nat.ne_of_lt less
  refine Option.ext fun p => ?_
  rw [path?, lookup_eq_some_iff apart, ← aligned.mem_pathToId_iff, aligned.inverse]
  constructor
  · rintro ⟨other, member, same⟩
    obtain ⟨entry, among, swapped⟩ := List.mem_map.mp member
    cases swapped
    exact eq_of_beq same ▸ among
  · exact fun member => ⟨id, List.mem_map.mpr ⟨_, member, rfl⟩, beq_self_eq_true id⟩

/-! Numbers that stay -/

theorem number_lt_size (found : t.get? p = some id) : id.number < t.size := by
  obtain ⟨bound, _⟩ := List.findIdx?_eq_some_iff_getElem.mp (aligned.get?_eq_some_iff.mp found)
  rwa [t.size_eq]

/-- Paths with one number name the same thing. -/
theorem beq_of_get? (left : t.get? p = some id) (right : t.get? q = some id) : (p == q) = true := by
  obtain ⟨_, first, _⟩ := List.findIdx?_eq_some_iff_getElem.mp (aligned.get?_eq_some_iff.mp left)
  obtain ⟨_, second, _⟩ := List.findIdx?_eq_some_iff_getElem.mp (aligned.get?_eq_some_iff.mp right)
  exact BEq.trans (BEq.symm first) second

theorem extends_assign (p : Path) : t.Extends (t.assign p).2 := by
  intro q id found
  cases known : t.get? p with
  | some other => rwa [assign_of_get? known]
  | none =>
    rw [(aligned.assign p).get?_eq_some_iff, (assign_of_get?_eq_none known).2, List.findIdx?_append,
      aligned.get?_eq_some_iff.mp found]
    rfl

theorem get?_assign (p : Path) : (t.assign p).2.get? p = some (t.assign p).1 := by
  cases known : t.get? p with
  | some id => rwa [assign_of_get? known]
  | none =>
    obtain ⟨number, behind⟩ := assign_of_get?_eq_none known
    have missing : t.paths.findIdx? (· == p) = none :=
      List.findIdx?_eq_none_iff.mpr (get?_eq_none_iff.mp known)
    rw [(aligned.assign p).get?_eq_some_iff, behind, number, aligned.next, t.size_eq]
    simp [List.findIdx?_append, missing]

/-- After a path has got its number, a path has a number if it had one before or is that path. -/
theorem get?_of_assign (found : (t.assign p).2.get? q = some id) :
    t.get? q = some id ∨ (p == q) = true ∧ id = (t.assign p).1 := by
  cases old : t.get? q with
  | some other =>
    cases found.symm.trans (aligned.extends_assign p q other old)
    exact Or.inl rfl
  | none =>
    have same : (p == q) = true := by
      cases known : t.get? p with
      | some other =>
        rw [assign_of_get? known, old] at found
        cases found
      | none =>
        by_contra different
        have missing : (t.assign p).2.get? q = none := by
          rw [get?_eq_none_iff, (assign_of_get?_eq_none known).2]
          intro r member
          rcases List.mem_append.mp member with before | last
          · exact get?_eq_none_iff.mp old r before
          · exact List.mem_singleton.mp last ▸ Bool.not_eq_true _ ▸ different
        cases missing.symm.trans found
    have own := aligned.get?_assign p
    rw [get?_congr same, found] at own
    exact Or.inr ⟨same, Option.some.inj own⟩

end IsAligned

end FileTable

namespace FileSet

variable {s : FileSet} {p q : Path} {id : FileId}

/-- The paths in the order in which they came. -/
def paths (s : FileSet) : List Path :=
  s.table.paths

theorem get?_eq_some_iff : s.get? p = some id ↔ s.paths.findIdx? (· == p) = some id.number :=
  s.aligned.get?_eq_some_iff

theorem number_lt_size (found : s.get? p = some id) : id.number < s.size :=
  s.aligned.number_lt_size found

theorem beq_of_get? (left : s.get? p = some id) (right : s.get? q = some id) : (p == q) = true :=
  s.aligned.beq_of_get? left right

/-- The second set has a number for each path that the first has one for, and it is the same. -/
def Extends (s t : FileSet) : Prop :=
  ∀ p id, s.get? p = some id → t.get? p = some id

theorem extends_assign (s : FileSet) (p : Path) : s.Extends (s.assign p).2 :=
  s.aligned.extends_assign p

theorem get?_assign (s : FileSet) (p : Path) : (s.assign p).2.get? p = some (s.assign p).1 :=
  s.aligned.get?_assign p

theorem get?_of_assign (found : (s.assign p).2.get? q = some id) :
    s.get? q = some id ∨ (p == q) = true ∧ id = (s.assign p).1 :=
  s.aligned.get?_of_assign found

theorem assign_of_get? (found : s.get? p = some id) : s.assign p = (id, s) := by
  have same := FileTable.assign_of_get? found
  simp only [assign, same]

theorem paths_assign_of_get?_eq_none (missing : s.get? p = none) : (s.assign p).2.paths = s.paths ++ [p] :=
  (FileTable.assign_of_get?_eq_none missing).2

end FileSet

end GoNav
