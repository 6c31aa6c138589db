import GoNav.Proofs.NormalPath
import GoNav.Workspace
import Mathlib.Data.List.Lex
import Mathlib.Data.List.Sort
import Mathlib.Data.Prod.Lex

namespace GoNav

/-! Sorting by insertion -/

section Sorted

variable {α : Type} {before : α → α → Bool}

theorem insertSorted_perm (before : α → α → Bool) (a : α) (as : List α) :
    (insertSorted before a as).Perm (a :: as) := by
  induction as with
  | nil => rfl
  | cons b rest ih =>
    rw [insertSorted]
    split
    · rfl
    · exact (ih.cons b).trans (.swap a b rest)

theorem foldl_insertSorted_perm (before : α → α → Bool) (as done : List α) :
    (as.foldl (fun done a => insertSorted before a done) done).Perm (as ++ done) := by
  induction as generalizing done with
  | nil => rfl
  | cons a rest ih =>
    refine (ih (insertSorted before a done)).trans ?_
    exact ((insertSorted_perm before a done).append_left rest).trans List.perm_middle

theorem sorted_perm (before : α → α → Bool) (as : List α) : (sorted before as).Perm as := by
  simpa only [sorted, List.append_nil] using foldl_insertSorted_perm before as []

theorem pairwise_insertSorted (trans : ∀ a b c, before a b → before b c → before a c) {a : α}
    {as : List α} (apart : ∀ b ∈ as, before a b ∨ before b a) (ordered : as.Pairwise (before · ·)) :
    (insertSorted before a as).Pairwise (before · ·) := by
  induction as with
  | nil => exact List.pairwise_singleton ..
  | cons b rest ih =>
    obtain ⟨first, later⟩ := List.pairwise_cons.mp ordered
    rw [insertSorted]
    split
    · rename_i less
      refine List.pairwise_cons.mpr ⟨fun c member => ?_, ordered⟩
      rcases List.mem_cons.mp member with rfl | behind
      · exact less
      · exact trans a b c less (first c behind)
    · rename_i notLess
      have greater := (apart b (List.mem_cons_self ..)).resolve_left notLess
      refine List.pairwise_cons.mpr ⟨fun c member => ?_, ih (fun c member => ?_) later⟩
      · rcases List.mem_cons.mp ((insertSorted_perm before a rest).mem_iff.mp member) with rfl | behind
        · exact greater
        · exact first c behind
      · exact apart c (List.mem_cons_of_mem b member)

theorem pairwise_foldl_insertSorted (trans : ∀ a b c, before a b → before b c → before a c)
    {as done : List α} (apart : (as ++ done).Pairwise fun a b => before a b ∨ before b a)
    (ordered : done.Pairwise (before · ·)) :
    (as.foldl (fun done a => insertSorted before a done) done).Pairwise (before · ·) := by
  induction as generalizing done with
  | nil => exact ordered
  | cons a rest ih =>
    obtain ⟨first, later⟩ := List.pairwise_cons.mp apart
    have inserted := pairwise_insertSorted trans
      (fun b member => first b (List.mem_append_right rest member)) ordered
    refine ih ?_ inserted
    have moved : (a :: (rest ++ done)).Perm (rest ++ insertSorted before a done) :=
      List.perm_middle.symm.trans ((insertSorted_perm before a done).symm.append_left rest)
    exact (moved.pairwise_iff fun {_ _} => Or.symm).mp apart

/-- Elements of which always one comes before the other are in order once they are sorted. -/
theorem pairwise_sorted (trans : ∀ a b c, before a b → before b c → before a c) {as : List α}
    (apart : as.Pairwise fun a b => before a b ∨ before b a) :
    (sorted before as).Pairwise (before · ·) := by
  refine pairwise_foldl_insertSorted trans ?_ List.Pairwise.nil
  rwa [List.append_nil]

end Sorted

/-! The order of paths -/

namespace Path

/-- A component as an element of a linear order. -/
def Component.key (c : Component) : ℕ ×ₗ List ℕ :=
  toLex c.rank

theorem Component.key_injective : Function.Injective Component.key := by
  intro a b same
  have ranks : a.rank = b.rank := toLex.injective same
  have names {s t : OsText} (bytes : s.bytes.map UInt8.toNat = t.bytes.map UInt8.toNat) : s = t :=
    congrArg OsText.mk (List.map_injective_iff.mpr (fun _ _ => UInt8.toNat_inj.mp) bytes)
  cases a <;> cases b <;> simp [Component.rank] at ranks ⊢
  exact names ranks

theorem Component.before_iff (a b : Component) : a.before b = true ↔ a.key < b.key := by
  simp [Component.before, Component.key, Prod.Lex.toLex_lt_toLex]

theorem componentsBefore_iff (as bs : List Component) :
    componentsBefore as bs = true ↔ as.map Component.key < bs.map Component.key := by
  induction as generalizing bs with
  | nil => cases bs <;> simp [componentsBefore]
  | cons a rest ih =>
    cases bs with
    | nil => simp [componentsBefore]
    | cons b more =>
      simp [componentsBefore, Component.before_iff, ih, List.cons_lt_cons_iff,
        Component.key_injective.eq_iff]

/-- A path as an element of a linear order. -/
def keys (p : Path) : List (ℕ ×ₗ List ℕ) :=
  p.components.map Component.key

theorem beq_iff_keys (p q : Path) : (p == q) = true ↔ p.keys = q.keys :=
  beq_iff_components.trans (List.map_injective_iff.mpr Component.key_injective).eq_iff.symm

theorem before_iff (p q : Path) : p.before q = true ↔ p.keys < q.keys :=
  componentsBefore_iff ..

end Path

/-! The order of files -/

namespace Workspace

theorem fileBefore_iff (a b : FileId × SourceFile) :
    fileBefore a b = true ↔ toLex (a.2.path.keys, a.1.number) < toLex (b.2.path.keys, b.1.number) := by
  simp [fileBefore, Path.before_iff, Path.beq_iff_keys, Prod.Lex.toLex_lt_toLex]

/-- Files with paths of their own are sorted by these, whatever their numbers are. -/
theorem pairwise_sorted_files {files : List (FileId × SourceFile)}
    (apart : files.Pairwise fun a b => ¬ (a.2.path == b.2.path) = true) :
    (sorted fileBefore files).Pairwise fun a b => a.2.path.keys < b.2.path.keys := by
  simp only [Path.beq_iff_keys] at apart
  have trans : ∀ a b c, fileBefore a b = true → fileBefore b c = true → fileBefore a c = true := by
    simp only [fileBefore_iff]
    exact fun a b c => lt_trans
  have ordered := pairwise_sorted trans (apart.imp fun {a b} different => by
    simp only [fileBefore_iff]
    exact lt_or_gt_of_ne fun same => different (Prod.mk.inj (toLex.injective same)).1)
  have stillApart := ((sorted_perm fileBefore files).pairwise_iff fun {_ _} => Ne.symm).mpr apart
  refine ordered.imp₂ (fun a b before different => ?_) stillApart
  rw [fileBefore_iff, Prod.Lex.toLex_lt_toLex] at before
  exact before.resolve_right fun tie => different tie.1

/-- The numbers of files with paths of their own have no part in how they are sorted, nor has the order
in which the files are given. -/
theorem sorted_files_eq {ρ : FileId → FileId} {files other : List (FileId × SourceFile)}
    (apart : files.Pairwise fun a b => ¬ (a.2.path == b.2.path) = true)
    (same : other.Perm (files.map fun entry => (ρ entry.1, entry.2))) :
    sorted fileBefore other = (sorted fileBefore files).map fun entry => (ρ entry.1, entry.2) := by
  have otherApart : other.Pairwise fun a b => ¬ (a.2.path == b.2.path) = true := by
    refine (same.pairwise_iff fun {a b} different => ?_).mpr (List.pairwise_map.mpr apart)
    rwa [Path.beq_iff_keys, eq_comm, ← Path.beq_iff_keys]
  have perm : (sorted fileBefore other).Perm ((sorted fileBefore files).map fun entry => (ρ entry.1, entry.2)) :=
    (sorted_perm fileBefore other).trans (same.trans ((sorted_perm fileBefore files).symm.map _))
  refine perm.eq_of_pairwise (fun a b _ _ less greater => absurd greater less.asymm)
    (pairwise_sorted_files otherApart) (List.pairwise_map.mpr (pairwise_sorted_files apart))

end Workspace

end GoNav
