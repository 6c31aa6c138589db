import GoNav.Pattern

namespace GoNav.Pattern

/-! The texts of each form of pattern -/

theorem not_matches_never {s : List Char} : ¬ Matches .never s :=
  nofun

theorem matches_empty_iff {s : List Char} : Matches .empty s ↔ s = [] :=
  ⟨fun | .empty => rfl, fun none => none ▸ .empty⟩

theorem matches_one_iff {accepts : Char → Bool} {s : List Char} :
    Matches (.one accepts) s ↔ ∃ c, accepts c = true ∧ s = [c] := by
  constructor
  · rintro (_ | ⟨accepted⟩)
    exact ⟨_, accepted, rfl⟩
  · rintro ⟨c, accepted, rfl⟩
    exact .one accepted

theorem matches_seq_iff {first second : Pattern} {s : List Char} :
    Matches (.seq first second) s ↔ ∃ a b, s = a ++ b ∧ Matches first a ∧ Matches second b := by
  constructor
  · intro matched
    cases matched with
    | seq left right => exact ⟨_, _, rfl, left, right⟩
  · rintro ⟨a, b, rfl, left, right⟩
    exact .seq left right

theorem matches_alt_iff {left right : Pattern} {s : List Char} :
    Matches (.alt left right) s ↔ Matches left s ∨ Matches right s := by
  constructor
  · intro matched
    cases matched with
    | altLeft matched => exact Or.inl matched
    | altRight matched => exact Or.inr matched
  · rintro (matched | matched)
    · exact .altLeft matched
    · exact .altRight matched

/-- A text of a repetition that is not empty starts with a text of the pattern that is not empty. -/
theorem exists_of_matches_star {inner : Pattern} {c : Char} {s : List Char}
    (matched : Matches (.star inner) (c :: s)) :
    ∃ a b, s = a ++ b ∧ Matches inner (c :: a) ∧ Matches (.star inner) b := by
  generalize whole : Pattern.star inner = p at matched
  generalize text : c :: s = t at matched
  induction matched with
  | starNil => cases text
  | @starCons p head tail first rest _ ih =>
    cases whole
    cases head with
    | nil => exact ih rfl text
    | cons d head =>
      obtain ⟨rfl, rfl⟩ := List.cons.inj text
      exact ⟨head, tail, rfl, first, rest⟩
  | _ => cases whole

theorem matches_star_cons_iff {inner : Pattern} {c : Char} {s : List Char} :
    Matches (.star inner) (c :: s) ↔
      ∃ a b, s = a ++ b ∧ Matches inner (c :: a) ∧ Matches (.star inner) b := by
  constructor
  · exact exists_of_matches_star
  · rintro ⟨a, b, rfl, first, rest⟩
    exact .starCons first rest

theorem matches_nil_iff {p : Pattern} : Matches p [] ↔ p.nullable = true := by
  induction p with
  | never => simp [nullable, not_matches_never]
  | empty => simp [nullable, matches_empty_iff]
  | one accepts => simp [nullable, matches_one_iff]
  | seq first second ihFirst ihSecond =>
    rw [matches_seq_iff, nullable, Bool.and_eq_true, ← ihFirst, ← ihSecond]
    constructor
    · rintro ⟨a, b, none, left, right⟩
      obtain ⟨rfl, rfl⟩ := List.append_eq_nil_iff.mp none.symm
      exact ⟨left, right⟩
    · rintro ⟨left, right⟩
      exact ⟨[], [], rfl, left, right⟩
  | alt left right ihLeft ihRight =>
    rw [matches_alt_iff, nullable, Bool.or_eq_true, ihLeft, ihRight]
  | star inner => exact ⟨fun _ => rfl, fun _ => .starNil⟩

/-! What may follow a character -/

theorem matches_andThen_iff {first second : Pattern} {s : List Char} :
    Matches (first.andThen second) s ↔ Matches (.seq first second) s := by
  rw [matches_seq_iff]
  unfold andThen
  split
  · exact ⟨nofun, fun ⟨_, _, _, left, _⟩ => absurd left not_matches_never⟩
  · constructor
    · intro matched
      exact ⟨[], s, rfl, .empty, matched⟩
    · rintro ⟨a, b, rfl, left, right⟩
      rw [matches_empty_iff] at left
      rwa [left]
  · exact ⟨nofun, fun ⟨_, _, _, _, right⟩ => absurd right not_matches_never⟩
  · exact matches_seq_iff

theorem matches_orElse_iff {left right : Pattern} {s : List Char} :
    Matches (left.orElse right) s ↔ Matches left s ∨ Matches right s := by
  unfold orElse
  split
  · simp only [not_matches_never, false_or]
  · simp only [not_matches_never, or_false]
  · exact matches_alt_iff

/-- What may follow a character in a text of the pattern is what makes such a text together with it. -/
theorem matches_after_iff {p : Pattern} {c : Char} {s : List Char} :
    Matches (p.after c) s ↔ Matches p (c :: s) := by
  induction p generalizing s with
  | never => exact ⟨nofun, nofun⟩
  | empty => exact ⟨nofun, nofun⟩
  | one accepts =>
    rw [after, matches_one_iff]
    split
    · rename_i accepted
      rw [matches_empty_iff]
      exact ⟨fun none => ⟨c, accepted, by rw [none]⟩, fun ⟨_, _, same⟩ => (List.cons.inj same).2⟩
    · rename_i refused
      exact ⟨nofun, fun ⟨_, accepted, same⟩ => absurd ((List.cons.inj same).1 ▸ accepted) refused⟩
  | seq first second ihFirst ihSecond =>
    have inside : Matches ((first.after c).andThen second) s ↔
        ∃ a b, s = a ++ b ∧ Matches first (c :: a) ∧ Matches second b := by
      rw [matches_andThen_iff, matches_seq_iff]
      simp only [ihFirst]
    have split : Matches (.seq first second) (c :: s) ↔
        (∃ a b, s = a ++ b ∧ Matches first (c :: a) ∧ Matches second b) ∨
          (Matches first [] ∧ Matches second (c :: s)) := by
      rw [matches_seq_iff]
      constructor
      · rintro ⟨a, b, text, left, right⟩
        rcases List.cons_eq_append_iff.mp text with ⟨rfl, rfl⟩ | ⟨a, rfl, rfl⟩
        · exact Or.inr ⟨left, right⟩
        · exact Or.inl ⟨a, b, rfl, left, right⟩
      · rintro (⟨a, b, rfl, left, right⟩ | ⟨left, right⟩)
        · exact ⟨c :: a, b, rfl, left, right⟩
        · exact ⟨[], c :: s, rfl, left, right⟩
    rw [after, split, matches_nil_iff]
    split
    · rename_i nullable
      rw [matches_orElse_iff, inside, ihSecond]
      simp only [nullable, true_and]
    · rename_i full
      rw [inside]
      simp only [full, Bool.false_eq_true, false_and, or_false]
  | alt left right ihLeft ihRight => rw [after, matches_orElse_iff, matches_alt_iff, ihLeft, ihRight]
  | star inner ih =>
    rw [after, matches_andThen_iff, matches_seq_iff, matches_star_cons_iff]
    simp only [ih]

/-! The longest match -/

theorem longest_nil (p : Pattern) : p.longest [] = if p.nullable then some 0 else none := by
  cases p <;> rfl

theorem longest_cons (p : Pattern) (c : Char) (rest : List Char) :
    p.longest (c :: rest) =
      match (p.after c).longest rest with
      | some n => some (n + 1)
      | none => if p.nullable then some 0 else none := by
  cases p with
  | never => cases rest <;> rfl
  | _ => rfl

/-- The longest beginning of a text that a pattern describes is there and is described. -/
theorem matches_take_longest {p : Pattern} {cs : List Char} {n : Nat} (found : p.longest cs = some n) :
    n ≤ cs.length ∧ Matches p (cs.take n) := by
  induction cs generalizing p n with
  | nil =>
    rw [longest_nil] at found
    split at found
    · rename_i nullable
      cases found
      exact ⟨Nat.le_refl 0, matches_nil_iff.mpr nullable⟩
    · cases found
  | cons c rest ih =>
    rw [longest_cons] at found
    split at found
    · rename_i later
      cases found
      obtain ⟨bound, matched⟩ := ih later
      exact ⟨Nat.succ_le_succ bound, matches_after_iff.mp matched⟩
    · split at found
      · rename_i nullable
        cases found
        exact ⟨Nat.zero_le _, matches_nil_iff.mpr nullable⟩
      · cases found

/-- No beginning of a text that a pattern describes is longer than the longest. -/
theorem exists_longest {p : Pattern} {cs s : List Char} (start : s <+: cs) (matched : Matches p s) :
    ∃ n, p.longest cs = some n ∧ s.length ≤ n := by
  induction cs generalizing p s with
  | nil =>
    rw [List.prefix_nil.mp start, matches_nil_iff] at matched
    exact ⟨0, by rw [longest_nil, if_pos matched], Nat.le_of_eq (congrArg _ (List.prefix_nil.mp start))⟩
  | cons c rest ih =>
    rw [longest_cons]
    cases s with
    | nil =>
      cases (p.after c).longest rest with
      | none => exact ⟨0, if_pos (matches_nil_iff.mp matched), Nat.le_refl 0⟩
      | some n => exact ⟨n + 1, rfl, Nat.zero_le _⟩
    | cons d s =>
      obtain ⟨rfl, later⟩ := List.cons_prefix_cons.mp start
      obtain ⟨n, found, bound⟩ := ih later (matches_after_iff.mpr matched)
      exact ⟨n + 1, by rw [found], Nat.succ_le_succ bound⟩

/-! Texts that two patterns cannot share -/

/-- Whether a text of a pattern may start with a character. -/
def mayStart (c : Char) : Pattern → Bool
  | .never | .empty => false
  | .one accepts => accepts c
  | .seq first second => first.mayStart c || (first.nullable && second.mayStart c)
  | .alt left right => left.mayStart c || right.mayStart c
  | .star inner => inner.mayStart c

theorem mayStart_of_matches {p : Pattern} {c : Char} {s : List Char} (matched : Matches p (c :: s)) :
    p.mayStart c = true := by
  induction p generalizing s with
  | never => cases matched
  | empty => cases matched
  | one accepts =>
    obtain ⟨d, accepted, same⟩ := matches_one_iff.mp matched
    rw [(List.cons.inj same).1]
    exact accepted
  | seq first second ihFirst ihSecond =>
    obtain ⟨a, b, text, left, right⟩ := matches_seq_iff.mp matched
    rw [mayStart, Bool.or_eq_true, Bool.and_eq_true]
    rcases List.cons_eq_append_iff.mp text with ⟨rfl, rfl⟩ | ⟨a, rfl, rfl⟩
    · exact Or.inr ⟨matches_nil_iff.mp left, ihSecond right⟩
    · exact Or.inl (ihFirst left)
  | alt left right ihLeft ihRight =>
    rw [mayStart, Bool.or_eq_true]
    exact (matches_alt_iff.mp matched).imp ihLeft ihRight
  | star inner ih =>
    obtain ⟨a, b, _, first, _⟩ := exists_of_matches_star matched
    exact ih first

/-- Each text of a pattern holds one of the given characters. -/
def Needs (cs : List Char) : Pattern → Prop
  | .never => True
  | .empty | .star _ => False
  | .one accepts => ∀ c, accepts c = true → c ∈ cs
  | .seq first second => first.Needs cs ∨ second.Needs cs
  | .alt left right => left.Needs cs ∧ right.Needs cs

theorem Needs.exists_mem {cs : List Char} {p : Pattern} {s : List Char} (needs : p.Needs cs)
    (matched : Matches p s) : ∃ c ∈ s, c ∈ cs := by
  induction matched with
  | empty => cases needs
  | one accepted => exact ⟨_, List.mem_singleton.mpr rfl, needs _ accepted⟩
  | seq _ _ ihLeft ihRight =>
    rcases needs with first | second
    · obtain ⟨c, member, listed⟩ := ihLeft first
      exact ⟨c, List.mem_append_left _ member, listed⟩
    · obtain ⟨c, member, listed⟩ := ihRight second
      exact ⟨c, List.mem_append_right _ member, listed⟩
  | altLeft _ ih => exact ih needs.1
  | altRight _ ih => exact ih needs.2
  | starNil => cases needs
  | starCons => cases needs

/-- The texts of a fixed pattern. -/
theorem matches_text_iff {spelling : String} {s : List Char} :
    Matches (Pattern.text spelling) s ↔ s = spelling.toList := by
  rw [Pattern.text]
  induction spelling.toList generalizing s with
  | nil => exact matches_empty_iff
  | cons c rest ih =>
    rw [List.foldr_cons, matches_seq_iff]
    constructor
    · rintro ⟨a, b, rfl, left, right⟩
      obtain ⟨d, same, rfl⟩ := matches_one_iff.mp left
      rw [ih.mp right, eq_of_beq same]
      rfl
    · rintro rfl
      exact ⟨[c], rest, rfl, .one (beq_self_eq_true c), ih.mpr rfl⟩

/-- Whether a pattern describes a text. -/
def accepts (p : Pattern) (s : List Char) : Bool :=
  (s.foldl (fun p c => p.after c) p).nullable

theorem accepts_iff {p : Pattern} {s : List Char} : p.accepts s = true ↔ Matches p s := by
  induction s generalizing p with
  | nil => exact matches_nil_iff.symm
  | cons c rest ih => exact ih.trans matches_after_iff

end GoNav.Pattern
