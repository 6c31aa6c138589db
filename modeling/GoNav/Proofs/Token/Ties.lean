import GoNav.Proofs.Token.Matching
import GoNav.Token.Patterns

namespace GoNav.Token

open Pattern

theorem mem_fixedPatterns_iff {entry : Kind × Pattern} :
    entry ∈ fixedPatterns ↔ ∃ spelled ∈ fixedSpellings, (spelled.1, Pattern.text spelled.2) = entry :=
  List.mem_map

theorem mem_patterns_iff {entry : Kind × Pattern} :
    entry ∈ patterns ↔ (∃ spelled ∈ fixedSpellings, (spelled.1, Pattern.text spelled.2) = entry) ∨
      entry ∈ variedPatterns := by
  rw [patterns, List.mem_append, mem_fixedPatterns_iff]

/-! A spelling against another spelling or a pattern -/

/-- No two tokens have the same fixed spelling. Only the keywords are described by another pattern too, and only by
that of the identifiers. -/
theorem spellings_apart : ∀ spelled ∈ fixedSpellings, spelled.2.toList ≠ [] ∧
    (∀ other ∈ fixedSpellings, spelled.2 = other.2 → spelled.1 = other.1) ∧
      ∀ entry ∈ variedPatterns,
        entry.2.accepts spelled.2.toList = (spelled.1.isKeyword && entry.1 == .ident) := by
  decide +kernel

/-! Patterns with different first characters -/

def decimals : List Char :=
  "0123456789".toList

/-- The characters with which a token of the varied patterns may start; identifiers have no such list. -/
def heads : Kind → List Char
  | .whitespace => [' ', '\t', '\r', '\n']
  | .lineComment => ['/']
  | .int => decimals
  | .float | .imaginary => '.' :: decimals
  | .char => ['\'']
  | .string => ['"']
  | .rawString => ['\x60']
  | _ => []

def isNumber (kind : Kind) : Bool :=
  kind == .int || kind == .float || kind == .imaginary

/-- No text of the second pattern starts with a character with which the first may start. -/
def startsApart (entry other : Kind × Pattern) : Bool :=
  entry.1 != .ident && (heads entry.1).all fun c => !other.2.mayStart c

/-- The varied patterns of tokens that are no numbers are told apart by the first character. -/
theorem heads_apart : ∀ entry ∈ variedPatterns, entry.2.nullable = false ∧ ∀ other ∈ variedPatterns,
    entry.1 = other.1 ∨ (isNumber entry.1 = true ∧ isNumber other.1 = true) ∨
      startsApart entry other = true ∨ startsApart other entry = true := by
  decide +kernel

theorem not_nullable {entry : Kind × Pattern} (member : entry ∈ patterns) : entry.2.nullable = false := by
  rcases mem_patterns_iff.mp member with ⟨spelled, listed, rfl⟩ | varied
  · refine Bool.eq_false_iff.mpr fun empty => ?_
    exact (spellings_apart spelled listed).1 (matches_text_iff.mp (matches_nil_iff.mpr empty)).symm
  · exact (heads_apart entry varied).1

end GoNav.Token
