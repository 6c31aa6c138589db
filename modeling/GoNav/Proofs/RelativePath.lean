import GoNav.Proofs.NormalPath

namespace GoNav.Path

/-! What a path does behind another -/

/-- The components that stand between the slashes of a path and take effect wherever it is seen from. -/
def effects (p : Path) : List Component :=
  p.pieces.filterMap Component.ofPiece

/-- The components that a path starts from, whatever stands before it. -/
def origin (p : Path) : List Component :=
  if p.isAbsolute then [.root] else []

theorem isPlain_effects (p : Path) : ∀ c ∈ p.effects, c.IsPlain :=
  isPlain_of_mem_filterMap fun _ => not_mem_of_mem_splitSlashes

/-- A path consists of its origin and its effects, but for a `.` in front. -/
theorem components_cases (p : Path) :
    p.components = p.origin ++ p.effects ∨ p.origin = [] ∧ p.components = .current :: p.effects := by
  unfold origin
  split
  · rename_i absolute
    obtain ⟨rest, _, pieces⟩ := pieces_of_isAbsolute absolute
    have nothing : Component.ofPiece "" = none := by simp [Component.ofPiece]
    exact Or.inl (by simp [components, effects, pieces, absolute, nothing])
  · rename_i relative
    cases pieces : p.pieces with
    | nil => exact Or.inl (by simp [components, effects, pieces])
    | cons first rest =>
      simp only [components, effects, pieces, relative, Bool.false_eq_true, if_false]
      split
      · rename_i dot
        exact Or.inr ⟨trivial, by simp [dot, Component.ofPiece]⟩
      · cases effect : Component.ofPiece first <;> exact Or.inl (by simp [effect])

/-- Working off the components of a path is working off its effects from its origin. -/
theorem foldl_components (p : Path) : p.components.foldl step [] = p.effects.foldl step p.origin := by
  have start : p.origin.foldl step [] = p.origin := by
    unfold origin
    split <;> rfl
  rcases components_cases p with whole | ⟨relative, dotted⟩
  · rw [whole, List.foldl_append, start]
  · rw [dotted, relative]
    rfl

section

variable {d r : Path}

/-- The pieces of a path come behind those of the one before it, or in the place of the empty one behind a slash at
its end. -/
theorem pieces_join (relative : r.isAbsolute = false) :
    (d.join r).pieces = d.pieces ++ r.pieces ∨
      ∃ init, d.pieces = init ++ [OsText.ofString ""] ∧ (d.join r).pieces = init ++ r.pieces := by
  have split (left right : List UInt8) : pieces ⟨⟨left ++ slash :: right⟩⟩ =
      pieces ⟨⟨left⟩⟩ ++ pieces ⟨⟨right⟩⟩ := by
    simp only [pieces, splitSlashes_append, List.map_append]
  unfold join
  rw [relative, if_neg Bool.false_ne_true]
  split
  · rename_i ends
    refine Or.inr ?_
    rcases ends with nothing | behind
    · obtain rfl : d = ⟨""⟩ := congrArg mk nothing
      exact ⟨[], rfl, rfl⟩
    · obtain ⟨before, whole⟩ := List.getLast?_eq_some_iff.mp behind
      have text : d = ⟨⟨before ++ slash :: []⟩⟩ := by rw [← whole]
      have joined : d.text ++ r.text = ⟨before ++ slash :: r.text.bytes⟩ := by
        exact congrArg OsText.mk (by simp [whole])
      refine ⟨pieces ⟨⟨before⟩⟩, ?_, by rw [joined, split]⟩
      rw [text, split]
      rfl
  · have joined : d.text ++ "/" ++ r.text = ⟨d.text.bytes ++ slash :: r.text.bytes⟩ := by
      exact congrArg OsText.mk (by simp)
    rw [joined, split]
    exact Or.inl rfl

theorem effects_join (relative : r.isAbsolute = false) : (d.join r).effects = d.effects ++ r.effects := by
  rcases pieces_join (d := d) relative with behind | ⟨init, slash, joined⟩
  · rw [effects, behind, List.filterMap_append]
    rfl
  · have nothing : Component.ofPiece "" = none := by simp [Component.ofPiece]
    simp [effects, slash, joined, nothing]

theorem isAbsolute_join (relative : r.isAbsolute = false) : (d.join r).isAbsolute = d.isAbsolute := by
  unfold join
  rw [relative, if_neg Bool.false_ne_true]
  cases text : d.text.bytes with
  | nil =>
    have nothing : d.text = "" := congrArg OsText.mk text
    rw [if_pos (Or.inl nothing)]
    simpa [isAbsolute, nothing] using relative
  | cons c rest => split <;> simp [isAbsolute, text]

theorem origin_join (relative : r.isAbsolute = false) : (d.join r).origin = d.origin := by
  rw [origin, isAbsolute_join relative, origin]

/-- A path that is not absolute goes on from where the one before it leads to. -/
theorem foldl_join (relative : r.isAbsolute = false) :
    (d.join r).components.foldl step [] = r.effects.foldl step (d.components.foldl step []) := by
  rw [foldl_components, effects_join relative, origin_join relative, List.foldl_append, ← foldl_components]

end

theorem foldl_normalize (p : Path) : p.normalize.components.foldl step [] = p.components.foldl step [] := by
  rw [normalize, components_ofComponents (isNormal_foldl_components p), foldl_step_foldl rfl]

theorem normalize_join (d r : Path) : (d.join r).normalize = (d.normalize.join r).normalize := by
  cases absolute : r.isAbsolute with
  | true => simp [join, absolute]
  | false => rw [normalize, normalize, foldl_join absolute, foldl_join absolute, foldl_normalize]

/-! Where a `..` stays -/

/-- A `..` stands first, or right behind the root. -/
def ParentFirst (cs : List Component) : Prop :=
  ∀ before behind, cs = before ++ .parent :: behind → before = [] ∨ before = [.root]

theorem ParentFirst.of_append {left right : List Component} (first : ParentFirst (left ++ right)) :
    ParentFirst left := by
  rintro before behind rfl
  exact first before (behind ++ right) (by simp)

theorem ParentFirst.append {done : List Component} {c : Component} (first : ParentFirst done)
    (last : c = .parent → done = [] ∨ done = [.root]) : ParentFirst (done ++ [c]) := by
  intro before behind split
  cases List.eq_nil_or_concat' behind with
  | inl nothing =>
    rw [nothing] at split
    obtain ⟨rfl, same⟩ := List.append_inj' split rfl
    exact last (List.singleton_inj.mp same)
  | inr more =>
    obtain ⟨inner, final, rfl⟩ := more
    rw [← List.cons_append, ← List.append_assoc] at split
    exact first before inner (List.append_inj_left' split rfl)

theorem IsNormal.eq_root {done : List Component} (normal : IsNormal done)
    (last : done.getLast? = some .root) : done = [.root] := by
  obtain ⟨rest, shape, plain⟩ := normal
  have outside : .root ∉ rest := fun member => not_isPlain_root (plain _ member)
  rcases shape with rfl | rfl
  · exact absurd (List.mem_of_getLast? last) outside
  · cases rest with
    | nil => rfl
    | cons c more =>
      rw [List.getLast?_cons_cons] at last
      exact absurd (List.mem_of_getLast? last) outside

theorem ParentFirst.step {done : List Component} (first : ParentFirst done) (normal : IsNormal done)
    (c : Component) : ParentFirst (step done c) := by
  cases c with
  | root => exact first.append nofun
  | current => exact first
  | name text => exact first.append nofun
  | parent =>
    simp only [Path.step]
    split
    · rename_i nothing
      exact first.append fun _ => Or.inl (List.getLast?_eq_none_iff.mp nothing)
    · rename_i root
      exact first.append fun _ => Or.inr (normal.eq_root root)
    · rename_i last _ found
      obtain ⟨init, rfl⟩ := List.getLast?_eq_some_iff.mp found
      rw [List.dropLast_concat]
      exact first.of_append

theorem ParentFirst.foldl {cs done : List Component} (first : ParentFirst done) (normal : IsNormal done)
    (plain : ∀ c ∈ cs, c.IsPlain) : ParentFirst (cs.foldl Path.step done) := by
  induction cs generalizing done with
  | nil => exact first
  | cons c rest ih =>
    exact ih (first.step normal c) (normal.step (plain c (List.mem_cons_self ..)))
      fun d member => plain d (List.mem_cons_of_mem _ member)

theorem parentFirst_foldl_components (p : Path) : ParentFirst (p.components.foldl step []) := by
  have normal : IsNormal p.origin :=
    ⟨[], (by unfold origin; split <;> simp), fun _ member => absurd member List.not_mem_nil⟩
  have first : ParentFirst p.origin := by
    intro before behind split
    have member : .parent ∈ p.origin := by simp [split]
    unfold origin at member
    split at member <;> simp at member
  rw [foldl_components]
  exact first.foldl normal p.isPlain_effects

theorem IsNormal.current_not_mem {cs : List Component} (normal : IsNormal cs) : .current ∉ cs := by
  obtain ⟨rest, shape, plain⟩ := normal
  have outside : .current ∉ rest := fun member => not_isPlain_current (plain _ member)
  rcases shape with rfl | rfl
  · exact outside
  · simpa using outside

/-- A path has one normal form: working it off again changes nothing, the normal form has no `.`, and a `..` only
in front or right behind the root. Whatever is joined to a path leads where it leads when it is joined to the
normal form. -/
theorem normalize_canonical (p : Path) :
    p.normalize.normalize = p.normalize ∧ .current ∉ p.normalize.components ∧
      (∀ before behind, p.normalize.components = before ++ .parent :: behind →
        before = [] ∨ before = [.root]) ∧
      ∀ r : Path, (p.join r).normalize = (p.normalize.join r).normalize := by
  have normal := isNormal_foldl_components p
  have components : p.normalize.components = p.components.foldl step [] := components_ofComponents normal
  refine ⟨normalize_normalize p, ?_, ?_, normalize_join p⟩
  · rw [components]
    exact normal.current_not_mem
  · rw [components]
    exact parentFirst_foldl_components p

/-- A path that climbs above the root, and one that is joined to it and climbs further. -/
theorem normalize_canonical_climbing :
    (Path.mk "/a/.././../b//").normalize.components = [.root] ++ .parent :: [.name "b"] ∧
      ([Component.root] = [] ∨ [Component.root] = [.root]) ∧
      ((Path.mk "/a/.././../b//").join ⟨"../.."⟩).normalize = ((Path.mk "/../b").join ⟨"../.."⟩).normalize := by
  have climbs : (Path.mk "/a/.././../b//").normalize.components = [.root] ++ .parent :: [.name "b"] := by
    decide +kernel
  have written : (Path.mk "/a/.././../b//").normalize = ⟨"/../b"⟩ :=
    congrArg mk (by decide +kernel : (Path.mk "/a/.././../b//").normalize.text = "/../b")
  obtain ⟨_, _, first, joined⟩ := normalize_canonical ⟨"/a/.././../b//"⟩
  exact ⟨climbs, first _ _ climbs, written ▸ joined ⟨"../.."⟩⟩

end GoNav.Path
