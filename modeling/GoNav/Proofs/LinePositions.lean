import GoNav.LineIndex
import Mathlib.Data.List.Basic
import Mathlib.Data.List.TakeWhile

namespace GoNav

theorem checkedAdd_eq_ok_iff {a b c : UInt32} :
    checkedAdd a b = .ok c ↔ a.toNat + b.toNat < UInt32.size ∧ c = a + b := by
  unfold checkedAdd
  split
  · rename_i small
    rw [Except.ok.injEq, eq_comm, and_iff_right small]
  · rename_i large
    exact iff_of_false nofun fun fits => large fits.1

theorem checkedAdd_eq_error_iff {a b : UInt32} :
    checkedAdd a b = .error .overflow ↔ UInt32.size ≤ a.toNat + b.toNat := by
  unfold checkedAdd
  split
  · rename_i small
    exact iff_of_false nofun (Nat.not_le_of_lt small)
  · rename_i large
    exact iff_of_true rfl (Nat.le_of_not_lt large)

/-- Positions in the order of the text: by their lines, and on one line by their columns. -/
def LineCol.Before (p q : LineCol) : Prop :=
  p.line < q.line ∨ p.line = q.line ∧ p.col < q.col

namespace LineIndex

/-! Lines among bytes -/

/-- The byte that ends a line. -/
def newline : UInt8 := 10

/-- The bytes of a text. -/
def bytes (text : String) : List UInt8 :=
  text.toByteArray.data.toList

/-- The bytes of each line of a text, without those that end the lines. -/
def linesOf (text : String) : List (List UInt8) :=
  (bytes text).splitOn newline

theorem bytes_eq (text : String) : bytes text = text.toList.flatMap String.utf8EncodeChar := by
  rw [bytes, ← String.ofList_toList (s := text), String.toByteArray_ofList, String.toList_ofList,
    List.utf8Encode, List.toList_data_toByteArray]

theorem length_bytes (text : String) : (bytes text).length = text.utf8ByteSize := by
  rw [bytes, Array.length_toList, ← String.size_toByteArray]
  rfl

theorem newline_eq_ofNat (n : Nat) : newline = UInt8.ofNat n ↔ n % 256 = 10 := by
  rw [← UInt8.toNat_inj, UInt8.toNat_ofNat', eq_comm]
  rfl

/-- No part of another character is taken for a line break. -/
theorem mem_utf8EncodeChar (c : Char) : newline ∈ String.utf8EncodeChar c ↔ c = '\n' := by
  have code : c = '\n' ↔ c.val.toNat = 10 := Char.toNat_inj.symm
  rw [code]
  simp only [String.utf8EncodeChar]
  repeat' split
  all_goals
    simp only [List.mem_cons, List.not_mem_nil, or_false, newline_eq_ofNat]
    omega

/-- The offsets just behind the line breaks among bytes that start at `offset`. -/
def breaks (offset : Nat) : List UInt8 → List Nat
  | [] => []
  | b :: rest =>
    if b = newline then (offset + 1) :: breaks (offset + 1) rest else breaks (offset + 1) rest

theorem breaks_append (offset : Nat) {line : List UInt8} (unbroken : newline ∉ line) (rest : List UInt8) :
    breaks offset (line ++ rest) = breaks (offset + line.length) rest := by
  induction line generalizing offset with
  | nil => rfl
  | cons b more ih =>
    rw [List.mem_cons, not_or] at unbroken
    rw [List.cons_append, breaks, if_neg (Ne.symm unbroken.1), ih _ unbroken.2, List.length_cons, Nat.add_assoc,
      Nat.add_comm 1]

theorem startsFrom_eq (offset : Nat) (cs : List Char) :
    startsFrom offset cs = (breaks offset (cs.flatMap String.utf8EncodeChar)).map Nat.toUInt32 := by
  induction cs generalizing offset with
  | nil => rfl
  | cons c rest ih =>
    rw [startsFrom, List.flatMap_cons]
    split
    · rename_i isBreak
      subst isBreak
      have encoded : String.utf8EncodeChar '\n' = [newline] := by decide
      rw [encoded, List.singleton_append, breaks, if_pos rfl, List.map_cons, ih]
      rfl
    · rename_i other
      have unbroken := mt (mem_utf8EncodeChar c).mp other
      rw [breaks_append offset unbroken, String.length_utf8EncodeChar, ih]

theorem starts_ofText (text : String) :
    (ofText text).starts = (0 :: breaks 0 (bytes text)).map Nat.toUInt32 := by
  rw [ofText, startsFrom_eq, bytes_eq]
  rfl

theorem bounds_of_mem_breaks {offset start : Nat} {bs : List UInt8} (member : start ∈ breaks offset bs) :
    offset < start ∧ start ≤ offset + bs.length := by
  induction bs generalizing offset with
  | nil => cases member
  | cons b rest ih =>
    rw [List.length_cons]
    rw [breaks] at member
    split at member
    · rcases List.mem_cons.mp member with rfl | later
      · omega
      · have := ih later
        omega
    · have := ih member
      omega

theorem pairwise_breaks (offset : Nat) (bs : List UInt8) : (offset :: breaks offset bs).Pairwise (· < ·) := by
  refine List.pairwise_cons.mpr ⟨fun start member => (bounds_of_mem_breaks member).1, ?_⟩
  induction bs generalizing offset with
  | nil => exact .nil
  | cons b rest ih =>
    rw [breaks]
    split
    · exact List.pairwise_cons.mpr ⟨fun start member => (bounds_of_mem_breaks member).1, ih _⟩
    · exact ih _

/-- The line that an offset lies on is the one behind as many line breaks as stand before the offset. -/
theorem exists_start (offset : Nat) (bs : List UInt8) (m : Nat) :
    ∃ start, (offset :: breaks offset bs)[(bs.take m).count newline]? = some start ∧ start ≤ offset + m ∧
      ∀ next, (breaks offset bs)[(bs.take m).count newline]? = some next → offset + m < next := by
  induction bs generalizing offset m with
  | nil => exact ⟨offset, by simp, Nat.le_add_right .., by simp [breaks]⟩
  | cons b rest ih =>
    cases m with
    | zero =>
      refine ⟨offset, by simp, Nat.le_add_right .., fun next found => ?_⟩
      exact (bounds_of_mem_breaks (List.mem_of_getElem? found)).1
    | succ m =>
      obtain ⟨start, found, reached, behind⟩ := ih (offset + 1) m
      rw [List.take_succ_cons, breaks]
      split
      · rename_i isBreak
        subst isBreak
        rw [List.count_cons_self]
        refine ⟨start, found, by omega, fun next there => ?_⟩
        have := behind next there
        omega
      · rename_i other
        rw [List.count_cons_of_ne other]
        generalize (rest.take m).count newline = line at found behind ⊢
        cases line with
        | zero =>
          refine ⟨offset, rfl, Nat.le_add_right .., fun next there => ?_⟩
          have := behind next there
          omega
        | succ line =>
          refine ⟨start, found, by omega, fun next there => ?_⟩
          have := behind next there
          omega

/-- A line reaches from where it starts to the line break before the next one, or to the end. -/
theorem length_splitOn (offset : Nat) (bs : List UInt8) (line : Nat) :
    (bs.splitOn newline)[line]?.map List.length = (offset :: breaks offset bs)[line]?.map fun start =>
      ((breaks offset bs)[line]?.map (· - 1)).getD (offset + bs.length) - start := by
  induction size : bs.length using Nat.strongRecOn generalizing bs offset line with
  | ind size ih =>
    subst size
    by_cases broken : newline ∈ bs
    · obtain ⟨first, rest, rfl, unbroken⟩ := List.eq_append_cons_of_mem broken
      rw [List.splitOn_append_cons_self_of_not_mem unbroken, breaks_append offset unbroken, breaks, if_pos rfl]
      cases line with
      | zero => simp
      | succ line =>
        have later := ih rest.length (by simp; omega) (offset + first.length + 1) rest line rfl
        rw [List.getElem?_cons_succ, later, List.getElem?_cons_succ, List.getElem?_cons_succ, List.length_append,
          List.length_cons]
        simp only [Nat.add_assoc, Nat.add_comm 1]
    · rw [List.splitOn_eq_singleton broken]
      have none : breaks offset bs = [] := by
        have := breaks_append offset broken []
        simpa [breaks] using this
      cases line with
      | zero => simp [none]
      | succ line => simp [none]

/-! The index of a text -/

/-- An index whose lines start one behind the other, the first one with the text and none behind its end. -/
structure Ordered (index : LineIndex) : Prop where
  first : index.starts[0]? = some 0
  ascending : index.starts.Pairwise (· < ·)
  within : ∀ start ∈ index.starts, start ≤ index.size

section

variable {text : String} (fits : text.utf8ByteSize < UInt32.size)
include fits

theorem toNat_size_ofText : (ofText text).size.toNat = text.utf8ByteSize :=
  UInt32.toNat_ofNat_of_lt' fits

/-- The offsets of a text are small enough to be told apart. -/
theorem toNat_start {start : Nat} (member : start ∈ 0 :: breaks 0 (bytes text)) :
    start.toUInt32.toNat = start ∧ start ≤ text.utf8ByteSize := by
  have upTo : start ≤ text.utf8ByteSize := by
    rcases List.mem_cons.mp member with rfl | behind
    · exact Nat.zero_le _
    · have bounds := bounds_of_mem_breaks behind
      rw [length_bytes] at bounds
      omega
  exact ⟨UInt32.toNat_ofNat_of_lt' (by omega), upTo⟩

theorem ordered_ofText : (ofText text).Ordered where
  first := rfl
  ascending := by
    rw [starts_ofText, List.pairwise_map]
    refine (pairwise_breaks 0 (bytes text)).imp_of_mem fun before behind less => ?_
    rw [UInt32.lt_iff_toNat_lt, (toNat_start fits before).1, (toNat_start fits behind).1]
    exact less
  within start member := by
    rw [starts_ofText] at member
    obtain ⟨place, among, rfl⟩ := List.mem_map.mp member
    obtain ⟨same, upTo⟩ := toNat_start fits among
    rw [UInt32.le_iff_toNat_le, same, toNat_size_ofText fits]
    exact upTo

end

/-- A line that starts at an offset or before it, and the next one, if there is any, behind it. -/
structure OnLine (index : LineIndex) (offset : UInt32) (line : Nat) (start : UInt32) : Prop where
  found : index.starts[line]? = some start
  reached : start ≤ offset
  behind : ∀ next, index.starts[line + 1]? = some next → offset < next

/-- The line that the search for an offset ends at. -/
def lineAt (index : LineIndex) (offset : UInt32) : Nat :=
  (index.starts.takeWhile (· ≤ offset)).length - 1

namespace Ordered

variable {index : LineIndex} (ordered : index.Ordered)
include ordered

theorem lt_of_lt {line other : Nat} {start later : UInt32} (found : index.starts[line]? = some start)
    (there : index.starts[other]? = some later) (less : line < other) : start < later := by
  obtain ⟨bound, rfl⟩ := List.getElem?_eq_some_iff.mp found
  obtain ⟨bound', rfl⟩ := List.getElem?_eq_some_iff.mp there
  exact List.pairwise_iff_getElem.mp ordered.ascending line other bound bound' less

/-- There are no more lines before an offset than bytes. -/
theorem line_le {line : Nat} {start : UInt32} (found : index.starts[line]? = some start) :
    line ≤ start.toNat := by
  induction line generalizing start with
  | zero => exact Nat.zero_le _
  | succ line ih =>
    obtain ⟨bound, _⟩ := List.getElem?_eq_some_iff.mp found
    obtain ⟨earlier, before⟩ : ∃ earlier, index.starts[line]? = some earlier :=
      ⟨_, List.getElem?_eq_getElem (Nat.lt_of_succ_lt bound)⟩
    have less := UInt32.lt_iff_toNat_lt.mp (ordered.lt_of_lt before found (Nat.lt_succ_self line))
    have := ih before
    omega

theorem toNat_line {line : Nat} {start : UInt32} (found : index.starts[line]? = some start) :
    line.toUInt32.toNat = line :=
  UInt32.toNat_ofNat_of_lt' (Nat.lt_of_le_of_lt (ordered.line_le found) start.toNat_lt_size)

theorem onLine_lineAt (offset : UInt32) : ∃ start, index.OnLine offset (index.lineAt offset) start := by
  have whole := List.takeWhile_append_dropWhile (p := (· ≤ offset)) (l := index.starts)
  have begun : index.starts.takeWhile (· ≤ offset) ≠ [] := by
    obtain ⟨rest, starts⟩ := List.head?_eq_some_iff.mp (List.head?_eq_getElem? .. ▸ ordered.first)
    have least : (0 : UInt32) ≤ offset := UInt32.le_iff_toNat_le.mpr (Nat.zero_le _)
    simp [starts, least]
  obtain ⟨init, start, taken⟩ := (List.eq_nil_or_concat' _).resolve_left begun
  have line : index.lineAt offset = init.length := by simp [lineAt, taken]
  rw [taken, List.append_assoc, List.singleton_append] at whole
  refine ⟨start, ?_, ?_, fun next found => ?_⟩
  · rw [line, ← whole, List.getElem?_append_right (Nat.le_refl _), Nat.sub_self, List.getElem?_cons_zero]
  · have member : start ∈ index.starts.takeWhile (· ≤ offset) := by simp [taken]
    simpa using List.mem_takeWhile_imp member
  · -- The search stops at the first line that starts behind the offset.
    rw [line, ← whole, List.getElem?_append_right (Nat.le_succ _)] at found
    have first : (index.starts.dropWhile (· ≤ offset)).head? = some next := by
      simpa [List.head?_eq_getElem?] using found
    have stops := List.head?_dropWhile_not (· ≤ offset) index.starts
    rw [first] at stops
    simpa using stops

/-- A later offset lies on no earlier line. -/
theorem le_of_onLine {o o' : UInt32} {line line' : Nat} {start start' : UInt32}
    (on : index.OnLine o line start) (on' : index.OnLine o' line' start') (le : o ≤ o') : line ≤ line' := by
  refine Nat.le_of_not_lt fun less => ?_
  obtain ⟨bound, _⟩ := List.getElem?_eq_some_iff.mp on.found
  obtain ⟨next, there⟩ : ∃ next, index.starts[line' + 1]? = some next :=
    ⟨_, List.getElem?_eq_getElem (Nat.lt_of_le_of_lt less bound)⟩
  have behind := UInt32.lt_iff_toNat_lt.mp (on'.behind next there)
  have reached := UInt32.le_iff_toNat_le.mp on.reached
  have order : next.toNat ≤ start.toNat := by
    rcases Nat.lt_or_eq_of_le less with further | same
    · exact Nat.le_of_lt (UInt32.lt_iff_toNat_lt.mp (ordered.lt_of_lt there on.found further))
    · have here := there.symm.trans (same ▸ on.found)
      exact Nat.le_of_eq (congrArg UInt32.toNat (Option.some.inj here))
  have := UInt32.le_iff_toNat_le.mp le
  omega

theorem onLine_unique {o : UInt32} {line line' : Nat} {start start' : UInt32}
    (on : index.OnLine o line start) (on' : index.OnLine o line' start') : line = line' ∧ start = start' := by
  have reflexive : o ≤ o := UInt32.le_iff_toNat_le.mpr (Nat.le_refl _)
  have same := Nat.le_antisymm (ordered.le_of_onLine on on' reflexive) (ordered.le_of_onLine on' on reflexive)
  subst same
  exact ⟨rfl, Option.some.inj (on.found.symm.trans on'.found)⟩

/-- The position of an offset of the text, from the line that it lies on. -/
theorem lineCol_eq {o : UInt32} {line : Nat} {start : UInt32} (upTo : o ≤ index.size)
    (on : index.OnLine o line start) : index.lineCol o = ⟨line.toUInt32, o - start⟩ := by
  obtain ⟨start', found⟩ := ordered.onLine_lineAt o
  obtain ⟨same, rfl⟩ := ordered.onLine_unique found on
  have least : min o index.size = o := if_pos upTo
  have first : index.starts.getD line 0 = start' := by rw [List.getD_eq_getElem?_getD, on.found, Option.getD_some]
  simp only [lineCol, least, ← lineAt.eq_1, same, first]

/-- An offset is not behind a line if it is before the next one and not behind the text. -/
theorem le_stop_iff {o : UInt32} {line : Nat} {start : UInt32} (found : index.starts[line]? = some start) :
    o ≤ (index.starts[line + 1]?.map (· - 1)).getD index.size ↔
      o ≤ index.size ∧ ∀ next, index.starts[line + 1]? = some next → o < next := by
  cases there : index.starts[line + 1]? with
  | none => simp
  | some next =>
    have after := UInt32.lt_iff_toNat_lt.mp (ordered.lt_of_lt found there (Nat.lt_succ_self line))
    have inside := UInt32.le_iff_toNat_le.mp (ordered.within next (List.mem_of_getElem? there))
    have last : (next - 1).toNat = next.toNat - 1 :=
      UInt32.toNat_sub_of_le next 1 (UInt32.le_iff_toNat_le.mpr (Nat.lt_of_le_of_lt (Nat.zero_le _) after))
    simp only [Option.map_some, Option.getD_some, UInt32.le_iff_toNat_le, UInt32.lt_iff_toNat_lt,
      Option.some.injEq, forall_eq', last]
    omega

theorem offset_eq_some_iff {p : LineCol} {o : UInt32} :
    index.offset p = .ok (some o) ↔ ∃ start, index.starts[p.line.toNat]? = some start ∧
      checkedAdd start p.col = .ok o ∧ o ≤ index.size ∧
        ∀ next, index.starts[p.line.toNat + 1]? = some next → o < next := by
  unfold offset
  cases found : index.starts[p.line.toNat]? with
  | none => simp
  | some start =>
    simp only [Option.some.injEq, exists_eq_left']
    cases sum : checkedAdd start p.col with
    | error fault => simp
    | ok offset =>
      simp only [ordered.le_stop_iff found, Except.ok.injEq, Option.ite_none_right_eq_some, Option.some.injEq]
      constructor
      · rintro ⟨inside, rfl⟩
        exact ⟨rfl, inside⟩
      · rintro ⟨rfl, inside⟩
        exact ⟨inside, rfl⟩

theorem offset_lineCol {o : UInt32} (upTo : o ≤ index.size) : index.offset (index.lineCol o) = .ok (some o) := by
  obtain ⟨start, on⟩ := ordered.onLine_lineAt o
  rw [ordered.lineCol_eq upTo on, ordered.offset_eq_some_iff, ordered.toNat_line on.found]
  refine ⟨start, on.found, checkedAdd_eq_ok_iff.mpr ⟨?_, ?_⟩, upTo, on.behind⟩
  · have reached := UInt32.le_iff_toNat_le.mp on.reached
    have size := o.toNat_lt_size
    rw [UInt32.toNat_sub_of_le _ _ on.reached]
    omega
  · rw [UInt32.add_comm, UInt32.sub_add_cancel]

theorem lineCol_offset {p : LineCol} {o : UInt32} (placed : index.offset p = .ok (some o)) :
    index.lineCol o = p := by
  obtain ⟨start, found, added, upTo, behind⟩ := ordered.offset_eq_some_iff.mp placed
  obtain ⟨small, rfl⟩ := checkedAdd_eq_ok_iff.mp added
  have sum : (start + p.col).toNat = start.toNat + p.col.toNat := by
    rw [UInt32.toNat_add, Nat.mod_eq_of_lt small]
  have reached : start ≤ start + p.col := UInt32.le_iff_toNat_le.mpr (by omega)
  rw [ordered.lineCol_eq upTo ⟨found, reached, behind⟩]
  have line : p.line.toNat.toUInt32 = p.line := UInt32.ofNat_toNat
  have col : start + p.col - start = p.col := by rw [UInt32.add_comm, UInt32.add_sub_cancel]
  rw [line, col]

theorem lineCol_before {o o' : UInt32} (less : o < o') (upTo : o' ≤ index.size) :
    (index.lineCol o).Before (index.lineCol o') := by
  have le : o ≤ o' := UInt32.le_of_lt less
  obtain ⟨start, on⟩ := ordered.onLine_lineAt o
  obtain ⟨start', on'⟩ := ordered.onLine_lineAt o'
  rw [ordered.lineCol_eq (UInt32.le_trans le upTo) on, ordered.lineCol_eq upTo on']
  rcases Nat.lt_or_eq_of_le (ordered.le_of_onLine on on' le) with earlier | same
  · refine Or.inl (UInt32.lt_iff_toNat_lt.mpr ?_)
    rwa [ordered.toNat_line on.found, ordered.toNat_line on'.found]
  · have reached := on'.reached
    rw [← same] at on'
    obtain rfl := Option.some.inj (on.found.symm.trans on'.found)
    refine Or.inr ⟨congrArg Nat.toUInt32 same, UInt32.lt_iff_toNat_lt.mpr ?_⟩
    have less := UInt32.lt_iff_toNat_lt.mp less
    have reached := UInt32.le_iff_toNat_le.mp on.reached
    rw [UInt32.toNat_sub_of_le _ _ on.reached, UInt32.toNat_sub_of_le _ _ on'.reached]
    omega

end Ordered

/-- An offset behind the text is taken for its end. -/
theorem lineCol_of_size_le {index : LineIndex} {o : UInt32} (behind : index.size ≤ o) :
    index.lineCol o = index.lineCol index.size := by
  have least : min o index.size = index.size := by
    show (if o ≤ index.size then o else index.size) = index.size
    split
    · rename_i upTo
      exact UInt32.le_antisymm upTo behind
    · rfl
  have itself : min index.size index.size = index.size := ite_self _
  simp only [lineCol, least, itself]

section

variable {text : String} (fits : text.utf8ByteSize < UInt32.size)
include fits

/-- An offset lies on the line behind as many line breaks as stand before it. -/
theorem onLine_count (o : UInt32) :
    ∃ start, (ofText text).OnLine o (((bytes text).take o.toNat).count newline) start := by
  obtain ⟨start, found, reached, behind⟩ := exists_start 0 (bytes text) o.toNat
  have place := (toNat_start fits (List.mem_of_getElem? found)).1
  refine ⟨start.toUInt32, ?_, ?_, fun next there => ?_⟩
  · rw [starts_ofText, List.getElem?_map, found]
    rfl
  · rw [UInt32.le_iff_toNat_le, place]
    omega
  · rw [starts_ofText, List.map_cons, List.getElem?_cons_succ, List.getElem?_map] at there
    obtain ⟨later, isNext, rfl⟩ := Option.map_eq_some_iff.mp there
    have place := (toNat_start fits (List.mem_cons_of_mem 0 (List.mem_of_getElem? isNext))).1
    have := behind later isNext
    rw [UInt32.lt_iff_toNat_lt, place]
    omega

theorem line_lineCol (o : UInt32) : ((ofText text).lineCol o).line.toNat =
    ((bytes text).take (min o.toNat text.utf8ByteSize)).count newline := by
  have ordered := ordered_ofText fits
  have size := toNat_size_ofText fits
  have counted {o : UInt32} (upTo : o ≤ (ofText text).size) : ((ofText text).lineCol o).line.toNat =
      ((bytes text).take o.toNat).count newline := by
    obtain ⟨start, on⟩ := onLine_count fits o
    rw [ordered.lineCol_eq upTo on, ordered.toNat_line on.found]
  rcases Nat.le_total o.toNat text.utf8ByteSize with upTo | behind
  · rw [counted (UInt32.le_iff_toNat_le.mpr (by rwa [size])), Nat.min_eq_left upTo]
  · rw [lineCol_of_size_le (UInt32.le_iff_toNat_le.mpr (by rwa [size])), counted (UInt32.le_refl _), size,
      Nat.min_eq_right behind]

/-- Offsets of a text and positions in it are in one-to-one correspondence, and in the same order. An offset behind
the text has the position of its end, and the line of an offset is the number of line breaks before it. A text has
an index if its offsets are 32-bit numbers. -/
theorem lineCol_bijective :
    let index := ofText text
    (∀ o : UInt32, o.toNat ≤ text.utf8ByteSize → index.offset (index.lineCol o) = .ok (some o)) ∧
      (∀ p o, index.offset p = .ok (some o) → index.lineCol o = p) ∧
      (∀ o o' : UInt32, o < o' → o'.toNat ≤ text.utf8ByteSize → (index.lineCol o).Before (index.lineCol o')) ∧
      (∀ o : UInt32, text.utf8ByteSize < o.toNat → index.lineCol o = index.lineCol text.utf8ByteSize.toUInt32) ∧
      ∀ o : UInt32, (index.lineCol o).line.toNat =
        ((bytes text).take (min o.toNat text.utf8ByteSize)).count newline := by
  intro index
  have ordered := ordered_ofText fits
  have within {o : UInt32} (upTo : o.toNat ≤ text.utf8ByteSize) : o ≤ index.size :=
    UInt32.le_iff_toNat_le.mpr (by rwa [toNat_size_ofText fits])
  refine ⟨fun o upTo => ordered.offset_lineCol (within upTo), fun p o => ordered.lineCol_offset,
    fun o o' less upTo => ordered.lineCol_before less (within upTo), fun o behind => ?_, line_lineCol fits⟩
  refine lineCol_of_size_le (UInt32.le_iff_toNat_le.mpr ?_)
  rw [toNat_size_ofText fits]
  exact Nat.le_of_lt behind

end

/-- A text with a character of two bytes and an empty last line. -/
theorem lineCol_bijective_accented :
    let index := ofText "é\nb\n"
    "é\nb\n".utf8ByteSize < UInt32.size ∧ index.lineCol 4 = ⟨1, 1⟩ ∧ index.offset (index.lineCol 4) = .ok (some 4) ∧
      index.offset ⟨1, 1⟩ = .ok (some 4) ∧ index.lineCol 4 = ⟨1, 1⟩ ∧ (index.lineCol 4).Before (index.lineCol 5) ∧
      index.lineCol 9 = index.lineCol 5 ∧ (index.lineCol 9).line.toNat = 2 := by
  have fits : "é\nb\n".utf8ByteSize < UInt32.size := by decide
  obtain ⟨there, back, ordered, clamped, counted⟩ := lineCol_bijective fits
  have placed : (ofText "é\nb\n").offset ⟨1, 1⟩ = .ok (some 4) := by decide
  refine ⟨fits, by decide, there 4 (by decide), placed, ?_, ordered 4 5 (by decide) (by decide), ?_, ?_⟩
  · exact back ⟨1, 1⟩ 4 placed
  · exact clamped 9 (by decide)
  · rw [counted]
    decide

/-! Positions outside of the text -/

section

variable {text : String} (fits : text.utf8ByteSize < UInt32.size)
include fits

/-- The number of bytes of a line, by where it starts and where it ends. -/
theorem length_line (line : Nat) :
    (linesOf text)[line]?.map List.length = (ofText text).starts[line]?.map fun start =>
      (((ofText text).starts[line + 1]?.map (· - 1)).getD (ofText text).size).toNat - start.toNat := by
  rw [linesOf, length_splitOn 0, starts_ofText]
  simp only [List.getElem?_map, List.getElem?_cons_succ, Option.map_map]
  refine Option.map_congr fun start found => ?_
  have place := (toNat_start fits (List.mem_of_getElem? found)).1
  rw [Function.comp_apply, place]
  cases there : (breaks 0 (bytes text))[line]? with
  | none => simp [toNat_size_ofText fits, length_bytes]
  | some next =>
    have member := List.mem_of_getElem? there
    have place := (toNat_start fits (List.mem_cons_of_mem 0 member)).1
    have positive : 1 ≤ next.toUInt32 := by
      rw [UInt32.le_iff_toNat_le, place]
      exact (bounds_of_mem_breaks member).1
    simp [UInt32.toNat_sub_of_le _ _ positive, place]

/-- Looking for the offset of a position ends in a fault exactly where its line exists and the sum of the column and
the start of the line is no 32-bit number. Wherever it does not, the position has an offset exactly if its line
exists and its column is not behind the line. -/
theorem offset_faults_iff (p : LineCol) :
    ((ofText text).offset p = .error .overflow ↔ ∃ start, (ofText text).starts[p.line.toNat]? = some start ∧
      UInt32.size ≤ start.toNat + p.col.toNat) ∧
    ∀ answer, (ofText text).offset p = .ok answer → (answer.isSome = true ↔
      ∃ line, (linesOf text)[p.line.toNat]? = some line ∧ p.col.toNat ≤ line.length) := by
  have lengths := length_line fits p.line.toNat
  have ordered := ordered_ofText fits
  unfold offset
  cases found : (ofText text).starts[p.line.toNat]? with
  | none =>
    rw [found, Option.map_none, Option.map_eq_none_iff] at lengths
    simp [lengths]
  | some start =>
    rw [found, Option.map_some, Option.map_eq_some_iff] at lengths
    obtain ⟨line, there, length⟩ := lengths
    have whole : start ≤ _ := (ordered.le_stop_iff found).mpr ⟨ordered.within start (List.mem_of_getElem? found),
      fun next isNext => ordered.lt_of_lt found isNext (Nat.lt_succ_self _)⟩
    generalize ((ofText text).starts[p.line.toNat + 1]?.map (· - 1)).getD (ofText text).size = stop at *
    simp only [Option.some.injEq, exists_eq_left', ← checkedAdd_eq_error_iff, there]
    cases sum : checkedAdd start p.col with
    | error fault => simp
    | ok o =>
      refine ⟨by simp, ?_⟩
      rintro answer ⟨⟩
      obtain ⟨small, rfl⟩ := checkedAdd_eq_ok_iff.mp sum
      rw [UInt32.le_iff_toNat_le] at whole
      rw [Option.isSome_ite, UInt32.le_iff_toNat_le, UInt32.toNat_add, Nat.mod_eq_of_lt small]
      omega

end

theorem offset_faults_iff_behind :
    "ab\ncd".utf8ByteSize < UInt32.size ∧ (linesOf "ab\ncd")[1]? = some [99, 100] ∧
      (ofText "ab\ncd").offset ⟨1, 2⟩ = .ok (some 5) ∧ (some (5 : UInt32)).isSome = true ∧
      (ofText "ab\ncd").offset ⟨1, 4294967292⟩ = .ok none ∧ ¬ (4294967292 : UInt32).toNat ≤ [99, 100].length ∧
      (ofText "ab\ncd").offset ⟨1, 4294967293⟩ = .error .overflow := by
  have fits : "ab\ncd".utf8ByteSize < UInt32.size := by decide
  have second : (linesOf "ab\ncd")[1]? = some [99, 100] := by decide
  have start : (ofText "ab\ncd").starts[1]? = some 3 := by decide
  have placed : (ofText "ab\ncd").offset ⟨1, 2⟩ = .ok (some 5) := by decide
  have unplaced : (ofText "ab\ncd").offset ⟨1, 4294967292⟩ = .ok none := by decide
  refine ⟨fits, second, placed, ?_, unplaced, fun within => ?_, ?_⟩
  · exact ((offset_faults_iff fits ⟨1, 2⟩).2 _ placed).mpr ⟨_, second, by decide⟩
  · cases ((offset_faults_iff fits ⟨1, 4294967292⟩).2 _ unplaced).mpr ⟨_, second, within⟩
  · exact (offset_faults_iff fits ⟨1, 4294967293⟩).1.mpr ⟨3, start, by decide⟩

/-- The sum of a column and the start of its line can be too large for 32 bits, although the line exists and the
column is behind its end. -/
theorem offset_overflows :
    (linesOf "ab\ncd")[1]? = some [99, 100] ∧ ¬ (4294967293 : UInt32).toNat ≤ [99, 100].length ∧
      (ofText "ab\ncd").offset ⟨1, 4294967293⟩ = .error .overflow := by
  decide

end LineIndex

end GoNav
