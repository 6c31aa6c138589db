import GoNav.Text.FirstByte
import Mathlib.Data.List.Chain

namespace GoNav.Text

theorem firstByte_mono {m n : Nat} (le : m ≤ n) : firstByte m ≤ firstByte n := by
  unfold firstByte
  repeat' split
  all_goals omega

/-- Ranges that start one behind the other and end at characters. -/
def Ranges.Ordered (ranges : Ranges) : Prop :=
  ranges.IsChain (fun range next => range.1 ≤ next.1) ∧
    ∀ range ∈ ranges, range.1 ≤ range.2 ∧ range.1.isValidChar ∧ range.2.isValidChar

instance (ranges : Ranges) : Decidable ranges.Ordered :=
  inferInstanceAs (Decidable (_ ∧ _))

theorem ordered_words : Ranges.Ordered letterRanges ∧ Ranges.Ordered decimalDigitRanges := by
  decide +kernel

/-- In a row of ranges that start one behind the other, the search may end at the first one behind. -/
theorem Ranges.contains_iff {n : Nat} {ranges : Ranges}
    (sorted : ranges.Pairwise fun range later => range.1 ≤ later.1) :
    ranges.contains n = true ↔ ∃ range ∈ ranges, range.1 ≤ n ∧ n ≤ range.2 := by
  induction ranges with
  | nil => simp [contains]
  | cons first rest ih =>
    obtain ⟨lowest, sorted⟩ := List.pairwise_cons.mp sorted
    simp only [contains, Bool.and_eq_true, Bool.or_eq_true, decide_eq_true_eq, ih sorted, List.mem_cons]
    constructor
    · rintro ⟨low, high | ⟨range, member, inside⟩⟩
      · exact ⟨first, Or.inl rfl, low, high⟩
      · exact ⟨range, Or.inr member, inside⟩
    · rintro ⟨range, rfl | member, low, high⟩
      · exact ⟨low, Or.inl high⟩
      · exact ⟨(lowest range member).trans low, Or.inr ⟨range, member, low, high⟩⟩

theorem Ranges.hasFirstByte_eq (byte : Nat) (ranges : Ranges) :
    ranges.hasFirstByte byte = Ranges.contains byte (ranges.map (Prod.map firstByte firstByte)) := by
  induction ranges with
  | nil => rfl
  | cons range rest ih => simp only [hasFirstByte, List.map_cons, contains, Prod.map, ih]

theorem Ranges.Ordered.hasFirstByte_iff {ranges : Ranges} (ordered : ranges.Ordered) (c : Char) :
    ranges.hasFirstByte (firstByte c.toNat) = true ↔
      ∃ d : Char, ranges.contains d.toNat = true ∧ firstByte d.toNat = firstByte c.toNat := by
  have sorted := List.isChain_iff_pairwise.mp ordered.1
  have sortedBytes : (ranges.map (Prod.map firstByte firstByte)).Pairwise
      fun range later => range.1 ≤ later.1 :=
    List.pairwise_map.mpr (sorted.imp firstByte_mono)
  rw [hasFirstByte_eq, contains_iff sortedBytes]
  simp only [contains_iff sorted, List.mem_map, exists_exists_and_eq_and, Prod.map_fst, Prod.map_snd]
  constructor
  · rintro ⟨range, member, low, high⟩
    obtain ⟨order, lowValid, highValid⟩ := ordered.2 range member
    -- The character of the range that is nearest to the given one has its first byte.
    have nearest {n : Nat} (valid : n.isValidChar) (low : range.1 ≤ n) (high : n ≤ range.2)
        (same : firstByte n = firstByte c.toNat) :
        ∃ d : Char, (∃ range ∈ ranges, range.1 ≤ d.toNat ∧ d.toNat ≤ range.2) ∧
          firstByte d.toNat = firstByte c.toNat := by
      have code : (Char.ofNat n).toNat = n := by
        rw [Char.ofNat, dif_pos valid]
        rfl
      exact ⟨Char.ofNat n, ⟨range, member, by rwa [code], by rwa [code]⟩, by rwa [code]⟩
    rcases Nat.lt_or_ge c.toNat range.1 with below | above
    · exact nearest lowValid (Nat.le_refl _) order (Nat.le_antisymm low (firstByte_mono below.le))
    · rcases Nat.lt_or_ge range.2 c.toNat with behind | inside
      · exact nearest highValid order (Nat.le_refl _) (Nat.le_antisymm (firstByte_mono behind.le) high)
      · exact ⟨c, ⟨range, member, above, inside⟩, rfl⟩
  · rintro ⟨d, ⟨range, member, low, high⟩, same⟩
    exact ⟨range, member, same ▸ firstByte_mono low, same ▸ firstByte_mono high⟩

/-- Some letter or decimal digit starts with the same byte as the character. -/
def LikeWord (c : Char) : Prop :=
  ∃ d : Char, (isLetter d = true ∨ isDecimalDigit d = true) ∧ firstByte d.toNat = firstByte c.toNat

theorem startsLikeWord_iff (c : Char) : startsLikeWord c = true ↔ LikeWord c := by
  rw [startsLikeWord, Bool.or_eq_true, ordered_words.1.hasFirstByte_iff, ordered_words.2.hasFirstByte_iff,
    ← exists_or]
  simp only [LikeWord, or_and_right, isLetter, isDecimalDigit]

end GoNav.Text
