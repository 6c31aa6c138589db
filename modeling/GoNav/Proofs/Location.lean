import GoNav.Proofs.RelativePath
import GoNav.Proofs.Sessions

namespace GoNav

namespace Path

/-- The place that a path leads to, as far as it can be told without a disk: whether it is counted from the
root, how many levels it is above the start, and the names that lead down from there. -/
structure Location where
  absolute : Bool
  above : Nat
  names : List OsText
  deriving DecidableEq, Repr

namespace Location

def start : Location :=
  ⟨false, 0, []⟩

/-- Where a component leads. Above the root there is nothing. -/
def move (here : Location) : Component → Location
  | .root => ⟨true, 0, []⟩
  | .current => here
  | .parent =>
    if here.names ≠ [] then { here with names := here.names.dropLast }
    else if here.absolute then here
    else { here with above := here.above + 1 }
  | .name text => { here with names := here.names ++ [text] }

/-- The place with its levels above the start taken away in pairs. -/
def paired (l : Location) : Location :=
  { l with above := l.above % 2 }

/-- Whether a place is counted from the root, or else is at most one level above the start. -/
def isNear (l : Location) : Bool :=
  l.absolute || l.above ≤ 1

end Location

def location (p : Path) : Location :=
  p.components.foldl Location.move .start

/-! Places of normal paths -/

namespace Location

/-- Components as a place is written by them: the root if it is counted from there, one `..` or none, and the
names. Behind the root a `..` says nothing, and elsewhere it is there for an odd number of levels. -/
inductive WrittenBy : Location → List Component → Prop
  | fromRoot (climbs : Nat) (names : List OsText) : climbs < 2 →
      WrittenBy ⟨true, 0, names⟩ (.root :: (List.replicate climbs .parent ++ names.map .name))
  | fromStart (above : Nat) (names : List OsText) :
      WrittenBy ⟨false, above, names⟩ (List.replicate (above % 2) .parent ++ names.map .name)

variable {l : Location} {done : List Component}

theorem WrittenBy.name (written : l.WrittenBy done) (text : OsText) :
    (l.move (.name text)).WrittenBy (step done (.name text)) := by
  cases written with
  | fromRoot climbs names few => simpa [move, step] using WrittenBy.fromRoot climbs (names ++ [text]) few
  | fromStart above names => simpa [move, step] using WrittenBy.fromStart above (names ++ [text])

theorem step_parent_concat (done : List Component) (text : OsText) :
    Path.step (done ++ [.name text]) .parent = done := by
  simp [step]

theorem move_parent_concat (absolute : Bool) (above : Nat) (names : List OsText) (text : OsText) :
    move ⟨absolute, above, names ++ [text]⟩ .parent = ⟨absolute, above, names⟩ := by
  simp [move]

theorem WrittenBy.parent (written : l.WrittenBy done) : (l.move .parent).WrittenBy (step done .parent) := by
  -- Where no name is left to be taken away, a `..` is taken away, or one stays if there is none.
  cases written with
  | fromRoot climbs names few =>
    rcases List.eq_nil_or_concat' names with rfl | ⟨init, last, rfl⟩
    · obtain rfl | rfl : climbs = 0 ∨ climbs = 1 := by omega
      · exact .fromRoot 1 [] Nat.one_lt_two
      · exact .fromRoot 0 [] Nat.two_pos
    · rw [List.map_append, List.map_singleton, ← List.append_assoc, ← List.cons_append, step_parent_concat,
        move_parent_concat]
      exact .fromRoot climbs init few
  | fromStart above names =>
    rcases List.eq_nil_or_concat' names with rfl | ⟨init, last, rfl⟩
    · have next := WrittenBy.fromStart (above + 1) []
      rcases Nat.mod_two_eq_zero_or_one above with even | odd
      · simpa [move, step, even, Nat.add_mod] using next
      · simpa [move, step, odd, Nat.add_mod] using next
    · rw [List.map_append, List.map_singleton, ← List.append_assoc, step_parent_concat, move_parent_concat]
      exact .fromStart above init

/-- What a component does to a place, working it off does to the components that the place is written by. -/
theorem WrittenBy.step {c : Component} (written : l.WrittenBy done) (plain : c.IsPlain) :
    (l.move c).WrittenBy (step done c) := by
  cases c with
  | root => exact absurd plain not_isPlain_root
  | current => exact absurd plain not_isPlain_current
  | name text => exact written.name text
  | parent => exact written.parent

theorem WrittenBy.foldl {cs : List Component} (written : l.WrittenBy done) (plain : ∀ c ∈ cs, c.IsPlain) :
    (cs.foldl move l).WrittenBy (cs.foldl Path.step done) := by
  induction cs generalizing l done with
  | nil => exact written
  | cons c rest ih =>
    exact ih (written.step (plain c (List.mem_cons_self ..)))
      fun d member => plain d (List.mem_cons_of_mem c member)

theorem foldl_move_names (here : Location) (names : List OsText) :
    (names.map Component.name).foldl move here = { here with names := here.names ++ names } := by
  induction names generalizing here with
  | nil => simp
  | cons text rest ih =>
    rw [List.map_cons, List.foldl_cons, ih]
    simp [move]

/-- Components by which a place is written lead there, but for pairs of levels above the start. -/
theorem WrittenBy.foldl_move (written : l.WrittenBy done) : done.foldl move start = l.paired := by
  cases written with
  | fromRoot climbs names few =>
    rw [List.foldl_cons, List.foldl_append, foldl_move_names]
    obtain rfl | rfl : climbs = 0 ∨ climbs = 1 := by omega
    · rfl
    · rfl
  | fromStart above names =>
    rw [List.foldl_append, foldl_move_names, paired]
    rcases Nat.mod_two_eq_zero_or_one above with even | odd
    · rw [even]
      rfl
    · rw [odd]
      rfl

end Location

theorem location_eq (p : Path) : p.location = p.effects.foldl Location.move (p.origin.foldl Location.move .start) := by
  unfold location
  rcases components_cases p with whole | ⟨relative, dotted⟩
  · rw [whole, List.foldl_append]
  · rw [dotted, relative]
    rfl

theorem writtenBy_foldl_components (p : Path) : p.location.WrittenBy (p.components.foldl step []) := by
  have origin : (p.origin.foldl Location.move .start).WrittenBy p.origin := by
    unfold origin
    split
    · exact .fromRoot 0 [] Nat.two_pos
    · exact .fromStart 0 []
  rw [location_eq, foldl_components]
  exact origin.foldl p.isPlain_effects

/-- A path that is worked off leads where it led before, except that levels above the start are lost in pairs. -/
theorem location_normalize (p : Path) : p.normalize.location = p.location.paired := by
  rw [location, normalize, components_ofComponents (isNormal_foldl_components p)]
  exact (writtenBy_foldl_components p).foldl_move

theorem Location.WrittenBy.above_of_absolute {l : Location} {done : List Component} (written : l.WrittenBy done)
    (absolute : l.absolute = true) : l.above = 0 := by
  cases written with
  | fromRoot => rfl
  | fromStart => cases absolute

theorem paired_eq_self_iff (p : Path) : p.location.paired = p.location ↔ p.location.isNear = true := by
  have root := (writtenBy_foldl_components p).above_of_absolute
  generalize p.location = l at root ⊢
  obtain ⟨absolute, above, names⟩ := l
  simp only [Location.paired, Location.isNear, Location.mk.injEq, true_and, and_true, Bool.or_eq_true,
    decide_eq_true_eq] at root ⊢
  constructor
  · intro same
    exact Or.inr (by omega)
  · rintro (absolute | few)
    · rw [root absolute]
    · omega

end Path

namespace Workspace

variable {ws later : Workspace} {ops : List Operation} {p q : Path} {text other : String}

/-- Paths that get one number in the course of a session have one normal form. -/
theorem normalize_eq_of_setText (run : Run (ws.setText p text).2 ops later)
    (same : (later.setText q other).1 = (ws.setText p text).1) : p.normalize = q.normalize := by
  have first := run.extends_fileSet _ _ (ws.fileSet.get?_assign p.normalize)
  have kept := later.fileSet.extends_assign q.normalize _ _ first
  have second := later.fileSet.get?_assign q.normalize
  rw [show (later.fileSet.assign q.normalize).1 = (ws.fileSet.assign p.normalize).1 from same] at second
  exact Path.normalize_eq_of_beq (FileSet.beq_of_get? kept second)

end Workspace

/-- The normal form of a path leads where the path leads, except that levels above the start are lost in pairs. So
it leads to the same place exactly if the path is counted from the root or leads at most one level above the
start. Of such paths those that lead to different places never get one number, whatever happens in between. -/
theorem Path.location_normalize_iff (p : Path) :
    p.normalize.location = p.location.paired ∧
      (p.normalize.location = p.location ↔ p.location.isNear = true) ∧
      ∀ (ws later : Workspace) (ops : List Workspace.Operation) (text other : String) (q : Path),
        Workspace.Run (ws.setText p text).2 ops later →
        p.location.isNear = true → q.location.isNear = true → p.location ≠ q.location →
        (later.setText q other).1 ≠ (ws.setText p text).1 := by
  refine ⟨p.location_normalize, by rw [location_normalize, paired_eq_self_iff], ?_⟩
  intro ws later ops text other q run near near' different same
  have normal := Workspace.normalize_eq_of_setText run same
  apply different
  calc p.location = p.normalize.location := by rw [location_normalize, p.paired_eq_self_iff.mpr near]
    _ = q.normalize.location := by rw [normal]
    _ = q.location := by rw [location_normalize, q.paired_eq_self_iff.mpr near']

/-- A path that leads one level above the start, by way of a name, is not taken for the name alone. -/
theorem Path.location_normalize_iff_sibling :
    let p : Path := ⟨"x/./../../a.go"⟩
    p.normalize.location = p.location ∧ p.location = ⟨false, 1, ["a.go"]⟩ ∧
      ((({} : Workspace).setText p "").2.setText ⟨"a.go"⟩ "").1 ≠ (({} : Workspace).setText p "").1 := by
  have place : (Path.mk "x/./../../a.go").location = ⟨false, 1, ["a.go"]⟩ := by decide +kernel
  have other : (Path.mk "a.go").location = ⟨false, 0, ["a.go"]⟩ := by decide +kernel
  obtain ⟨_, kept, apart⟩ := location_normalize_iff ⟨"x/./../../a.go"⟩
  refine ⟨kept.mpr (place ▸ rfl), place, apart {} _ [] "" "" ⟨"a.go"⟩ (.done _) (place ▸ rfl) (other ▸ rfl) ?_⟩
  rw [place, other]
  decide

/-- Two levels above the start are lost, and the file there gets the number of another. -/
theorem Path.location_lost :
    let p : Path := ⟨"../../a.go"⟩
    p.location = ⟨false, 2, ["a.go"]⟩ ∧ p.normalize.location = ⟨false, 0, ["a.go"]⟩ ∧
      p.normalize.location ≠ p.location ∧ p.location ≠ (Path.mk "a.go").location ∧
      ((({} : Workspace).setText ⟨"a.go"⟩ "").2.setText p "").1 = (({} : Workspace).setText ⟨"a.go"⟩ "").1 := by
  decide +kernel

end GoNav
