import GoNav.Loading
import GoNav.Proofs.FileNumbers
import GoNav.Proofs.NormalPath
import GoNav.Proofs.Placement

namespace GoNav

/-! Numbers of many paths -/

namespace FileSet

theorem extends_foldl_assign (files : List SourceFile) (s : FileSet) :
    s.Extends (files.foldl (fun s f => (s.assign f.path).2) s) := by
  induction files generalizing s with
  | nil => exact fun p id found => found
  | cons f rest ih => exact fun p id found => ih _ p id (s.extends_assign f.path p id found)

/-- Files that have got their numbers have them, whichever came first. -/
theorem exists_get?_foldl_assign {files : List SourceFile} {f : SourceFile} (member : f ∈ files)
    (s : FileSet) : ∃ id, (files.foldl (fun s f => (s.assign f.path).2) s).get? f.path = some id := by
  induction files generalizing s with
  | nil => cases member
  | cons g rest ih =>
    rcases List.mem_cons.mp member with rfl | later
    · exact ⟨_, extends_foldl_assign rest _ _ _ (s.get?_assign f.path)⟩
    · exact ih later _

end FileSet

/-- A file as it is read: its path is normal, and it holds what its text is parsed to. -/
def SourceFile.IsRead (f : SourceFile) : Prop :=
  ∃ path text, f = .ofText (Path.normalize path) text

namespace SourceFile.IsRead

variable {f g : SourceFile}

theorem normalize_path (read : f.IsRead) : f.path.normalize = f.path := by
  obtain ⟨path, text, rfl⟩ := read
  exact path.normalize_normalize

theorem path_eq_of_beq (left : f.IsRead) (right : g.IsRead) (same : (f.path == g.path) = true) :
    f.path = g.path := by
  rw [← left.normalize_path, ← right.normalize_path] at same ⊢
  exact Path.normalize_eq_of_beq same

theorem eq_ofText (read : f.IsRead) : f = .ofText f.path f.text := by
  obtain ⟨path, text, rfl⟩ := read
  rfl

theorem of_readSource {disk : Disk} {path : Path} (done : Loading.readSource disk path = .ok f) :
    f.IsRead := by
  unfold Loading.readSource at done
  split at done
  · cases done
  · cases done
    exact ⟨path, _, rfl⟩

end SourceFile.IsRead

namespace Workspace

/-! Files under the numbers of their paths -/

/-- A workspace whose files are as they are read, each under the number of its path. -/
structure Orderly (ws : Workspace) : Prop where
  read : ∀ entry ∈ ws.files, entry.2.IsRead
  numbered : ∀ entry ∈ ws.files, ws.fileSet.get? entry.2.path = some entry.1

theorem mem_putEntry {id : FileId} {f : SourceFile} {files : List (FileId × SourceFile)}
    (distinct : (files.map Prod.fst).Nodup) {entry : FileId × SourceFile} :
    entry ∈ putEntry id f files ↔ entry = (id, f) ∨ entry ∈ files ∧ entry.1 ≠ id := by
  induction files with
  | nil => simp [putEntry]
  | cons first rest ih =>
    obtain ⟨fresh, others⟩ := List.nodup_cons.mp distinct
    rw [putEntry]
    split
    · rename_i same
      obtain rfl := eq_of_beq same
      have apart : entry ∈ rest → entry.1 ≠ first.1 :=
        fun member equal => fresh (equal ▸ List.mem_map_of_mem member)
      rw [List.mem_cons, List.mem_cons]
      grind
    · rename_i different
      rw [List.mem_cons, ih others, List.mem_cons]
      grind

theorem orderly_empty (config : Config) : Orderly { config } :=
  ⟨fun _ member => (nomatch member), fun _ member => (nomatch member)⟩

namespace Orderly

variable {ws : Workspace}

theorem insert (orderly : ws.Orderly) {id : FileId} {f : SourceFile} (read : f.IsRead)
    (numbered : ws.fileSet.get? f.path = some id) : (ws.insert id f).Orderly := by
  constructor
  · intro entry member
    rcases (mem_putEntry ws.distinct).mp member with rfl | ⟨old, _⟩
    · exact read
    · exact orderly.read entry old
  · intro entry member
    rcases (mem_putEntry ws.distinct).mp member with rfl | ⟨old, _⟩
    · exact numbered
    · exact orderly.numbered entry old

/-- Numbers for further paths do no harm. -/
theorem extend (orderly : ws.Orderly) {s : FileSet} (extended : ws.fileSet.Extends s) :
    Orderly { ws with fileSet := s } :=
  ⟨orderly.read, fun entry member => extended _ _ (orderly.numbered entry member)⟩

theorem setText (orderly : ws.Orderly) (path : Path) (text : String) : (ws.setText path text).2.Orderly :=
  (orderly.extend (ws.fileSet.extends_assign path.normalize)).insert ⟨path, text, rfl⟩
    (ws.fileSet.get?_assign path.normalize)

theorem remove (orderly : ws.Orderly) (path : Path) : (ws.remove path).2.Orderly := by
  unfold Workspace.remove
  split
  · exact orderly
  · exact ⟨fun entry member => orderly.read entry (List.mem_filter.mp member).1,
      fun entry member => orderly.numbered entry (List.mem_filter.mp member).1⟩

end Orderly

/-! The texts at hand -/

/-- The text of the file at a path. -/
def textAt? (ws : Workspace) (path : Path) : Option String :=
  ((ws.fileId? path).bind ws.file?).map SourceFile.text

namespace Orderly

variable {ws : Workspace} (orderly : ws.Orderly)
include orderly

theorem path_eq_of_number {id : FileId} {path : Path} {f : SourceFile} (member : (id, f) ∈ ws.files)
    (numbered : ws.fileSet.get? path.normalize = some id) : f.path = path.normalize := by
  have same := FileSet.beq_of_get? (orderly.numbered _ member) numbered
  rw [← (orderly.read _ member).normalize_path] at same ⊢
  exact Path.normalize_eq_of_beq same

theorem fileId?_eq_some_iff {path : Path} {id : FileId} :
    ws.fileId? path = some id ↔ ∃ f, (id, f) ∈ ws.files ∧ f.path = path.normalize := by
  rw [fileId?, Option.filter_eq_some_iff, Option.isSome_iff_exists]
  constructor
  · rintro ⟨numbered, f, found⟩
    exact ⟨f, mem_files_of_file? found, orderly.path_eq_of_number (mem_files_of_file? found) numbered⟩
  · rintro ⟨f, member, same⟩
    have numbered := orderly.numbered (id, f) member
    rw [same] at numbered
    exact ⟨numbered, f, file?_of_mem_files member⟩

/-- The files at hand are told by the texts at hand. -/
theorem textAt?_eq_some_iff {path : Path} {text : String} :
    ws.textAt? path = some text ↔ ∃ id, (id, .ofText path.normalize text) ∈ ws.files := by
  rw [textAt?, Option.map_eq_some_iff]
  constructor
  · rintro ⟨f, found, rfl⟩
    obtain ⟨id, atPath, here⟩ := Option.bind_eq_some_iff.mp found
    obtain ⟨g, member, same⟩ := orderly.fileId?_eq_some_iff.mp atPath
    cases here.symm.trans (file?_of_mem_files member)
    exact ⟨id, by rwa [← same, ← (orderly.read _ member).eq_ofText]⟩
  · rintro ⟨id, member⟩
    have atPath := orderly.fileId?_eq_some_iff.mpr ⟨_, member, rfl⟩
    exact ⟨_, Option.bind_eq_some_iff.mpr ⟨id, atPath, file?_of_mem_files member⟩, rfl⟩

theorem textAt?_of_mem {id : FileId} {f : SourceFile} (member : (id, f) ∈ ws.files) :
    ws.textAt? f.path = some f.text := by
  refine orderly.textAt?_eq_some_iff.mpr ⟨id, ?_⟩
  rwa [(orderly.read _ member).normalize_path, ← (orderly.read _ member).eq_ofText]

/-- No two files at hand have one path. -/
theorem eq_of_path_beq {a b : FileId × SourceFile} (left : a ∈ ws.files) (right : b ∈ ws.files)
    (same : (a.2.path == b.2.path) = true) : a.1 = b.1 := by
  have paths := (orderly.read a left).path_eq_of_beq (orderly.read b right) same
  have numbered := orderly.numbered a left
  rw [paths, orderly.numbered b right] at numbered
  exact (Option.some.inj numbered).symm

theorem fileId?_setText (path : Path) (text : String) :
    (ws.setText path text).2.fileId? path = some (ws.setText path text).1 := by
  refine (orderly.setText path text).fileId?_eq_some_iff.mpr ⟨.ofText path.normalize text, ?_, rfl⟩
  exact (mem_putEntry ws.distinct).mpr (Or.inl rfl)

/-- The text at a path is the one of the file that was taken in there last. -/
theorem textAt?_insert {id : FileId} {f : SourceFile} (read : f.IsRead)
    (numbered : ws.fileSet.get? f.path = some id) (other : Path) :
    (ws.insert id f).textAt? other =
      if other.normalize.text = f.path.text then some f.text else ws.textAt? other := by
  have later := orderly.insert read numbered
  split
  · rename_i same
    refine later.textAt?_eq_some_iff.mpr ⟨id, (mem_putEntry ws.distinct).mpr (Or.inl ?_)⟩
    rw [show other.normalize = f.path from congrArg Path.mk same, ← read.eq_ofText]
  · rename_i different
    refine Option.ext fun there => ?_
    rw [later.textAt?_eq_some_iff, orderly.textAt?_eq_some_iff]
    refine exists_congr fun number => ⟨fun member => ?_, fun member => ?_⟩
    · rcases (mem_putEntry ws.distinct).mp member with new | ⟨old, _⟩
      · exact absurd (congrArg (·.2.path.text) new) different
      · exact old
    · refine (mem_putEntry ws.distinct).mpr (Or.inr ⟨member, fun same => different ?_⟩)
      rw [← read.normalize_path, ← show number = id from same] at numbered
      have paths := orderly.path_eq_of_number member numbered
      exact congrArg Path.text (paths.trans read.normalize_path)

theorem textAt?_extend {s : FileSet} (extended : ws.fileSet.Extends s) :
    textAt? { ws with fileSet := s } = ws.textAt? := by
  funext path
  refine Option.ext fun text => ?_
  rw [(orderly.extend extended).textAt?_eq_some_iff, orderly.textAt?_eq_some_iff]

/-- A path has the text that was given to it last. -/
theorem textAt?_setText (path other : Path) (text : String) :
    (ws.setText path text).2.textAt? other =
      if other.normalize.text = path.normalize.text then some text else ws.textAt? other := by
  have extended := ws.fileSet.extends_assign path.normalize
  rw [← orderly.textAt?_extend extended]
  exact (orderly.extend extended).textAt?_insert ⟨path, text, rfl⟩ (ws.fileSet.get?_assign path.normalize) other

/-- The file at the path is taken away, and the others close up. -/
theorem files_remove (path : Path) :
    (ws.remove path).2.files = ws.files.filter fun entry => entry.2.path.text != path.normalize.text := by
  have here {entry : FileId × SourceFile} (member : entry ∈ ws.files)
      (same : entry.2.path.text = path.normalize.text) : ws.fileId? path = some entry.1 :=
    orderly.fileId?_eq_some_iff.mpr ⟨entry.2, member, congrArg Path.mk same⟩
  unfold Workspace.remove
  split
  · rename_i missing
    refine (List.filter_eq_self.mpr fun entry member => bne_iff_ne.mpr fun same => ?_).symm
    cases missing.symm.trans (here member same)
  · rename_i gone atPath
    refine List.filter_congr fun entry member => Bool.eq_iff_iff.mpr ?_
    rw [bne_iff_ne, bne_iff_ne]
    refine not_congr ⟨fun same => ?_, fun same => Option.some.inj ((here member same).symm.trans atPath)⟩
    have numbered := (Option.filter_eq_some_iff.mp atPath).1
    rw [← same] at numbered
    exact congrArg Path.text (orderly.path_eq_of_number member numbered)

theorem mem_remove_iff {path : Path} {entry : FileId × SourceFile} :
    entry ∈ (ws.remove path).2.files ↔ entry ∈ ws.files ∧ entry.2.path ≠ path.normalize := by
  rw [orderly.files_remove, List.mem_filter, bne_iff_ne]
  exact and_congr_right fun _ => not_congr ⟨fun same => congrArg Path.mk same, congrArg Path.text⟩

/-- A path has no text once its file is taken away. -/
theorem textAt?_remove (path other : Path) :
    (ws.remove path).2.textAt? other =
      if other.normalize.text = path.normalize.text then none else ws.textAt? other := by
  have later := orderly.remove path
  split
  · rename_i same
    refine Option.eq_none_iff_forall_ne_some.mpr fun text found => ?_
    obtain ⟨id, member⟩ := later.textAt?_eq_some_iff.mp found
    exact (orderly.mem_remove_iff.mp member).2 (congrArg Path.mk same)
  · rename_i different
    refine Option.ext fun there => ?_
    rw [later.textAt?_eq_some_iff, orderly.textAt?_eq_some_iff]
    exact exists_congr fun id => orderly.mem_remove_iff.trans
      (and_iff_left fun same => different (congrArg Path.text same))

end Orderly

end Workspace

end GoNav
