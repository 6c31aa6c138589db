import GoNav.Workspace
import Mathlib.Data.List.Basic
import Mathlib.Data.List.Induction
import Mathlib.Data.List.TakeWhile

namespace GoNav.Path

theorem splitSlashes_ne_nil (cs : List UInt8) : splitSlashes cs ≠ [] := by
  cases cs with
  | nil => simp [splitSlashes]
  | cons c rest =>
    rw [splitSlashes]
    split
    · simp
    · split <;> simp

theorem splitSlashes_of_not_mem {cs : List UInt8} (plain : slash ∉ cs) : splitSlashes cs = [cs] := by
  induction cs with
  | nil => rfl
  | cons c rest ih =>
    rw [List.mem_cons, not_or] at plain
    rw [splitSlashes, ih plain.2]
    exact if_neg (Ne.symm plain.1)

theorem splitSlashes_append (left right : List UInt8) :
    splitSlashes (left ++ slash :: right) = splitSlashes left ++ splitSlashes right := by
  induction left with
  | nil =>
    rw [List.nil_append]
    cases split : splitSlashes right with
    | nil => exact absurd split (splitSlashes_ne_nil right)
    | cons first more => simp [splitSlashes, split]
  | cons c rest ih =>
    rw [List.cons_append, splitSlashes, ih, splitSlashes]
    cases split : splitSlashes rest with
    | nil => exact absurd split (splitSlashes_ne_nil rest)
    | cons first more =>
      simp only [List.cons_append]
      split <;> rfl

theorem not_mem_of_mem_splitSlashes {cs piece : List UInt8} (member : piece ∈ splitSlashes cs) :
    slash ∉ piece := by
  induction cs generalizing piece with
  | nil => simp_all [splitSlashes]
  | cons c rest ih =>
    rw [splitSlashes] at member
    cases split : splitSlashes rest with
    | nil => exact absurd split (splitSlashes_ne_nil rest)
    | cons first more =>
      rw [split] at member ih
      by_cases here : c = slash
      · simp only [here, if_true, List.mem_cons] at member
        rcases member with rfl | later
        · exact List.not_mem_nil
        · exact ih (List.mem_cons.mpr later)
      · simp only [here, if_false, List.mem_cons] at member
        rcases member with rfl | later
        · rw [List.mem_cons, not_or]
          exact ⟨Ne.symm here, ih (List.mem_cons_self ..)⟩
        · exact ih (List.mem_cons_of_mem _ later)

theorem splitSlashes_intercalate {first : List UInt8} {rest : List (List UInt8)}
    (plain : ∀ piece ∈ first :: rest, slash ∉ piece) :
    splitSlashes ([slash].intercalate (first :: rest)) = first :: rest := by
  induction rest generalizing first with
  | nil =>
    rw [List.intercalate_singleton]
    exact splitSlashes_of_not_mem (plain first (List.mem_cons_self ..))
  | cons second rest ih =>
    rw [List.intercalate_cons_cons, List.append_assoc, List.singleton_append, splitSlashes_append,
      splitSlashes_of_not_mem (plain first (List.mem_cons_self ..)),
      ih fun piece member => plain piece (List.mem_cons_of_mem _ member)]
    rfl

/-! Normal lists of components -/

/-- A component that stands between slashes and takes effect there. -/
def Component.IsPlain (c : Component) : Prop :=
  Component.ofPiece (ofComponents.write c) = some c ∧ slash ∉ (ofComponents.write c).bytes

/-- Components as a normal path has them: no `.`, and a root only in front. -/
def IsNormal (components : List Component) : Prop :=
  ∃ rest, (components = rest ∨ components = .root :: rest) ∧ ∀ c ∈ rest, c.IsPlain

theorem not_isPlain_current : ¬ Component.current.IsPlain := by
  simp [Component.IsPlain, Component.ofPiece, ofComponents.write]

theorem not_isPlain_root : ¬ Component.root.IsPlain := by
  simp [Component.IsPlain, ofComponents.write]

theorem isPlain_of_ofPiece {piece : List UInt8} {c : Component} (plain : slash ∉ piece)
    (effect : Component.ofPiece ⟨piece⟩ = some c) : c.IsPlain := by
  have written : ofComponents.write c = ⟨piece⟩ := by
    simp only [Component.ofPiece] at effect
    split at effect
    · cases effect
    · split at effect
      · rename_i parent
        cases effect
        exact parent.symm
      · cases effect
        rfl
  rw [Component.IsPlain, written]
  exact ⟨effect, plain⟩

theorem isPlain_of_mem_filterMap {pieces : List (List UInt8)} (plain : ∀ piece ∈ pieces, slash ∉ piece) :
    ∀ c ∈ (pieces.map OsText.mk).filterMap Component.ofPiece, c.IsPlain := by
  intro c member
  obtain ⟨text, among, effect⟩ := List.mem_filterMap.mp member
  obtain ⟨piece, inside, rfl⟩ := List.mem_map.mp among
  exact isPlain_of_ofPiece (plain piece inside) effect

theorem IsNormal.append {done : List Component} {c : Component} (normal : IsNormal done)
    (plain : c.IsPlain) : IsNormal (done ++ [c]) := by
  obtain ⟨rest, shape, all⟩ := normal
  refine ⟨rest ++ [c], ?_, ?_⟩
  · rcases shape with rfl | rfl
    · exact Or.inl rfl
    · exact Or.inr rfl
  · intro d member
    rcases List.mem_append.mp member with old | new
    · exact all d old
    · exact List.mem_singleton.mp new ▸ plain

theorem IsNormal.dropLast {done : List Component} (normal : IsNormal done)
    (last : done.getLast? ≠ some .root) : IsNormal done.dropLast := by
  obtain ⟨rest, shape, all⟩ := normal
  refine ⟨rest.dropLast, ?_, fun c member => all c ((List.dropLast_sublist rest).subset member)⟩
  rcases shape with rfl | rfl
  · exact Or.inl rfl
  · cases rest with
    | nil => exact absurd rfl last
    | cons c more => exact Or.inr rfl

theorem IsNormal.step {done : List Component} {c : Component} (normal : IsNormal done)
    (plain : c.IsPlain) : IsNormal (step done c) := by
  cases c with
  | root => exact absurd plain not_isPlain_root
  | current => exact absurd plain not_isPlain_current
  | name text => exact normal.append plain
  | parent =>
    simp only [Path.step]
    split
    · exact normal.append plain
    · exact normal.append plain
    · rename_i last other shape
      exact normal.dropLast fun root => other (Option.some.inj (shape.symm.trans root))

theorem IsNormal.foldl {cs done : List Component} (normal : IsNormal done)
    (plain : ∀ c ∈ cs, c.IsPlain) : IsNormal (cs.foldl Path.step done) := by
  induction cs generalizing done with
  | nil => exact normal
  | cons c rest ih =>
    exact ih (normal.step (plain c (List.mem_cons_self ..)))
      fun d member => plain d (List.mem_cons_of_mem _ member)

/-- Working off the components of any path gives normal ones. -/
theorem isNormal_foldl_components (p : Path) : IsNormal (p.components.foldl step []) := by
  have empty : IsNormal [] := ⟨[], Or.inl rfl, fun _ member => absurd member List.not_mem_nil⟩
  have root : IsNormal [.root] := ⟨[], Or.inr rfl, fun _ member => absurd member List.not_mem_nil⟩
  have slashless := @not_mem_of_mem_splitSlashes p.text.bytes
  unfold components pieces
  cases split : splitSlashes p.text.bytes with
  | nil => exact empty
  | cons first rest =>
    rw [split] at slashless
    have later := isPlain_of_mem_filterMap fun piece member => slashless (List.mem_cons_of_mem first member)
    simp only [List.map_cons, List.foldl_append]
    split
    · exact root.foldl later
    · split
      · exact empty.foldl later
      · refine (empty.foldl fun c member => ?_).foldl later
        exact isPlain_of_ofPiece (slashless (List.mem_cons_self ..)) (Option.mem_toList.mp member)

/-! Paths that are normal -/

theorem pieces_intercalate {first : Component} {rest : List Component}
    (plain : ∀ c ∈ first :: rest, c.IsPlain) :
    pieces ⟨.intercalate "/" ((first :: rest).map ofComponents.write)⟩ =
      (first :: rest).map ofComponents.write := by
  rw [pieces, OsText.bytes_intercalate, bytes_slash, List.map_map, List.map_cons]
  refine (congrArg _ (splitSlashes_intercalate fun piece member => ?_)).trans ?_
  · rw [← List.map_cons] at member
    obtain ⟨c, among, rfl⟩ := List.mem_map.mp member
    exact (plain c among).2
  · simp

theorem filterMap_pieces {cs : List Component} (plain : ∀ c ∈ cs, c.IsPlain) :
    (pieces ⟨.intercalate "/" (cs.map ofComponents.write)⟩).filterMap Component.ofPiece = cs := by
  cases cs with
  | nil => simp [pieces, splitSlashes, Component.ofPiece]
  | cons c rest =>
    rw [pieces_intercalate plain, List.filterMap_map]
    exact (List.filterMap_congr fun d member => (plain d member).1).trans List.filterMap_some

theorem pieces_of_isAbsolute {p : Path} (absolute : p.isAbsolute) :
    ∃ rest, p.text.bytes = slash :: rest ∧ p.pieces = OsText.ofString "" :: (splitSlashes rest).map OsText.mk := by
  unfold isAbsolute at absolute
  cases text : p.text.bytes with
  | nil => simp [text] at absolute
  | cons c rest =>
    simp only [text, List.head?_cons, Option.some_beq_some, beq_iff_eq] at absolute
    subst absolute
    refine ⟨rest, rfl, ?_⟩
    have split := splitSlashes_append [] rest
    rw [List.nil_append] at split
    rw [pieces, text, split]
    rfl

/-- A path that is not absolute has the components of its pieces, unless it starts with a `.`. -/
theorem components_of_relative {p : Path} {first : OsText} {rest : List OsText} {c : Component}
    (pieces : p.pieces = first :: rest) (effect : Component.ofPiece first = some c) :
    p.components = p.pieces.filterMap Component.ofPiece := by
  have relative : p.isAbsolute = false := by
    rw [← Bool.not_eq_true]
    intro absolute
    obtain ⟨_, _, split⟩ := pieces_of_isAbsolute absolute
    cases (List.cons.inj (split.symm.trans pieces)).1
    simp [Component.ofPiece] at effect
  have notDot : first ≠ "." := by
    rintro rfl
    simp [Component.ofPiece] at effect
  simp [components, pieces, relative, notDot, effect]

theorem ofComponents_of_isPlain {cs : List Component} (plain : ∀ c ∈ cs, c.IsPlain) :
    ofComponents cs = ⟨.intercalate "/" (cs.map ofComponents.write)⟩ := by
  unfold ofComponents
  split
  · exact absurd (plain .root (List.mem_cons_self ..)) not_isPlain_root
  · rfl

/-- Normal components, written down, are read back. -/
theorem components_ofComponents {cs : List Component} (normal : IsNormal cs) :
    (ofComponents cs).components = cs := by
  obtain ⟨rest, shape, plain⟩ := normal
  rcases shape with rfl | rfl
  · cases cs with
    | nil => simp [ofComponents, components, pieces, isAbsolute, splitSlashes, Component.ofPiece]
    | cons c more =>
      rw [ofComponents_of_isPlain plain]
      rw [components_of_relative (pieces_intercalate plain) (plain c (List.mem_cons_self ..)).1,
        filterMap_pieces plain]
  · have absolute : (ofComponents (.root :: rest)).isAbsolute := by
      simp [ofComponents, isAbsolute]
    obtain ⟨bytes, text, split⟩ := pieces_of_isAbsolute absolute
    have same : bytes = (OsText.intercalate "/" (rest.map ofComponents.write)).bytes := by
      simpa [ofComponents] using text.symm
    rw [components, split]
    simp only [absolute, if_true, List.singleton_append]
    rw [same]
    exact congrArg _ (filterMap_pieces plain)

/-- Paths that are worked off are the same only if they are written the same. -/
theorem normalize_eq_of_beq {p q : Path} (same : p.normalize == q.normalize) :
    p.normalize = q.normalize := by
  have components := beq_iff_components.mp same
  rw [normalize, normalize, components_ofComponents (isNormal_foldl_components p),
    components_ofComponents (isNormal_foldl_components q)] at components
  rw [normalize, normalize, components]

/-! Working off twice -/

theorem step_cases (done : List Component) (c : Component) :
    step done c = done ++ [c] ∨ step done c = done ∨ step done c = done.dropLast := by
  cases c with
  | root => exact Or.inl rfl
  | current => exact Or.inr (Or.inl rfl)
  | name text => exact Or.inl rfl
  | parent =>
    simp only [step]
    split
    · exact Or.inl rfl
    · exact Or.inl rfl
    · exact Or.inr (Or.inr rfl)

theorem length_foldl_step_le (cs done : List Component) :
    (cs.foldl step done).length ≤ done.length + cs.length := by
  induction cs generalizing done with
  | nil => exact Nat.le_refl _
  | cons c rest ih =>
    have one : (step done c).length ≤ done.length + 1 := by
      rcases step_cases done c with grown | same | shrunk
      · simp [grown]
      · simp [same]
      · simp only [shrunk, List.length_dropLast]
        omega
    have more := ih (step done c)
    simp only [List.foldl_cons, List.length_cons]
    omega

/-- Where components are left as they are with one more behind them, they are so without it. -/
theorem foldl_step_of_append {init : List Component} {c : Component}
    (fixed : (init ++ [c]).foldl step [] = init ++ [c]) : init.foldl step [] = init := by
  have short := length_foldl_step_le init []
  rw [List.foldl_append, List.foldl_cons, List.foldl_nil] at fixed
  have long := congrArg List.length fixed
  rw [List.length_append, List.length_singleton] at long
  rw [List.length_nil] at short
  rcases step_cases (init.foldl step []) c with grown | same | shrunk
  · exact List.append_inj_left' (grown.symm.trans fixed) rfl
  · rw [same] at long
    omega
  · rw [shrunk, List.length_dropLast] at long
    omega

theorem foldl_step_step {done : List Component} (fixed : done.foldl step [] = done) (c : Component) :
    (step done c).foldl step [] = step done c := by
  rcases step_cases done c with grown | same | shrunk
  · rw [grown, List.foldl_append, fixed, List.foldl_cons, List.foldl_nil, grown]
  · rw [same, fixed]
  · rw [shrunk]
    cases List.eq_nil_or_concat' done with
    | inl empty => rw [empty]; rfl
    | inr behind =>
      obtain ⟨init, last, rfl⟩ := behind
      rw [List.dropLast_concat]
      exact foldl_step_of_append fixed

/-- What is worked off already is left as it is. -/
theorem foldl_step_foldl {done : List Component} (fixed : done.foldl step [] = done)
    (cs : List Component) : (cs.foldl step done).foldl step [] = cs.foldl step done := by
  induction cs generalizing done with
  | nil => exact fixed
  | cons c rest ih => exact ih (foldl_step_step fixed c)

theorem normalize_normalize (p : Path) : p.normalize.normalize = p.normalize := by
  rw [normalize, normalize, components_ofComponents (isNormal_foldl_components p), foldl_step_foldl rfl]

/-! The last name of a path -/

/-- The characters behind the last slash. -/
def lastPiece (cs : List UInt8) : List UInt8 :=
  (cs.reverse.takeWhile (· != slash)).reverse

theorem getLast?_splitSlashes (cs : List UInt8) : (splitSlashes cs).getLast? = some (lastPiece cs) := by
  by_cases inside : slash ∈ cs.reverse
  · obtain ⟨last, before, split, plain⟩ := List.eq_append_cons_of_mem inside
    have whole : cs = before.reverse ++ slash :: last.reverse := by
      have reversed := congrArg List.reverse split
      simpa using reversed
    have taken : cs.reverse.takeWhile (· != slash) = last := by
      rw [split, List.takeWhile_append_of_pos]
      · simp
      · intro c member
        simp only [bne_iff_ne]
        exact fun equal => plain (equal ▸ member)
    have alone : splitSlashes last.reverse = [last.reverse] :=
      splitSlashes_of_not_mem (by simpa using plain)
    rw [lastPiece, taken, whole, splitSlashes_append, alone, List.getLast?_concat]
  · have taken : cs.reverse.takeWhile (· != slash) = cs.reverse := by
      rw [List.takeWhile_eq_self_iff]
      intro c member
      simp only [bne_iff_ne]
      exact fun equal => inside (equal ▸ member)
    rw [lastPiece, taken, splitSlashes_of_not_mem (by simpa using inside)]
    simp

theorem lastPiece_append (left right : List UInt8) : lastPiece (left ++ slash :: right) = lastPiece right := by
  have whole := getLast?_splitSlashes (left ++ slash :: right)
  rw [splitSlashes_append, List.getLast?_append, getLast?_splitSlashes] at whole
  exact (Option.some.inj whole).symm

theorem lastPiece_join (dir p : Path) : lastPiece (dir.join p).text.bytes = lastPiece p.text.bytes := by
  unfold join
  split
  · rfl
  · split
    · rename_i ends
      rw [OsText.bytes_append]
      rcases ends with empty | behind
      · simp [empty]
      · obtain ⟨before, split⟩ := List.getLast?_eq_some_iff.mp behind
        rw [split, List.append_assoc, List.singleton_append]
        exact lastPiece_append ..
    · rw [OsText.bytes_append, OsText.bytes_append, List.append_assoc]
      exact lastPiece_append ..

theorem components_getLast? {p : Path} {name : OsText} (last : p.pieces.getLast? = some name)
    (effect : Component.ofPiece name = some (.name name)) :
    p.components.getLast? = some (.name name) := by
  obtain ⟨before, split⟩ := List.getLast?_eq_some_iff.mp last
  cases before with
  | nil => simp [components_of_relative split effect, split, effect]
  | cons first middle => simp [components, split, effect]

/-- A path that ends in a name still does when it is worked off. -/
theorem fileName?_normalize {p : Path} {name : OsText} (last : p.pieces.getLast? = some name)
    (effect : Component.ofPiece name = some (.name name)) : p.normalize.fileName? = name.text? := by
  obtain ⟨before, split⟩ := List.getLast?_eq_some_iff.mp (components_getLast? last effect)
  have read := components_ofComponents (isNormal_foldl_components p)
  have worked : p.components.foldl step [] = before.foldl step [] ++ [.name name] := by
    rw [split, List.foldl_append]
    rfl
  rw [fileName?, normalize, read, worked, List.getLast?_concat]

/-- A slash is written by no other character. -/
theorem eq_slash_of_mem {c : Char} (member : slash ∈ String.utf8EncodeChar c) : c = '/' := by
  have written : slash.toNat = 47 := by decide
  have byte {n : Nat} (same : slash = UInt8.ofNat n) : n % 256 = 47 := by
    rw [← written, same]
    rfl
  have value : c.val.toNat = 47 := by
    unfold String.utf8EncodeChar at member
    dsimp only at member
    repeat' split at member
    all_goals
      simp only [List.mem_cons, List.not_mem_nil, or_false] at member
      grind
  exact Char.ext (UInt32.toNat_inj.mp value)

theorem lastPiece_append_of_not_mem {left right : List UInt8} (plain : slash ∉ right) :
    lastPiece (left ++ right) = lastPiece left ++ right := by
  rw [lastPiece, List.reverse_append, List.takeWhile_append_of_pos, List.reverse_append, List.reverse_reverse]
  · rfl
  · intro b member
    simp only [bne_iff_ne]
    rintro rfl
    exact plain (List.mem_reverse.mp member)

/-- What stands behind the last slash of a text is the same in bytes as in characters. -/
theorem lastPiece_ofString (text : String) :
    lastPiece (OsText.ofString text).bytes = (OsText.ofString (Node.lastSegment text)).bytes := by
  have encoded (cs : List Char) : lastPiece (cs.flatMap String.utf8EncodeChar) =
      (cs.reverse.takeWhile (· != '/')).reverse.flatMap String.utf8EncodeChar := by
    induction cs using List.reverseRecOn with
    | nil => rfl
    | append_singleton cs c ih =>
      rw [List.flatMap_append, List.flatMap_singleton, List.reverse_append, List.reverse_singleton,
        List.singleton_append]
      by_cases last : c = '/'
      · subst last
        exact lastPiece_append _ []
      · rw [lastPiece_append_of_not_mem fun member => last (eq_slash_of_mem member), ih,
          List.takeWhile_cons_of_pos (by simpa using last)]
        simp
  rw [OsText.ofString, encoded, Node.lastSegment, OsText.ofString, String.toList_ofList]

theorem fileName?_normalize_join {dir : Path} {text : String}
    (effect : Component.ofPiece (Node.lastSegment text) = some (.name (Node.lastSegment text))) :
    (dir.join ⟨text⟩).normalize.fileName? = some (Node.lastSegment text) := by
  rw [← OsText.text?_ofString (Node.lastSegment text)]
  refine fileName?_normalize ?_ effect
  rw [pieces, List.getLast?_map, getLast?_splitSlashes, lastPiece_join, lastPiece_ofString]
  rfl

end GoNav.Path
