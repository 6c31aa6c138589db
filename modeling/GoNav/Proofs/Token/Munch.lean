import GoNav.Proofs.Text.FirstByte
import GoNav.Proofs.Token.Scanning
import GoNav.Proofs.Token.Ties
import Mathlib.Algebra.GroupWithZero.Nat

namespace GoNav.Token

open Pattern

/-! The longest of several matches -/

theorem exists_longer {a b : Option (Kind × Nat)} {m : Kind × Nat} (found : a = some m ∨ b = some m) :
    ∃ best, longer a b = some best ∧ m.2 ≤ best.2 := by
  cases a <;> cases b <;> grind [longer]

/-- No match is longer than the chosen one. -/
theorem exists_foldr_longer {found : List (Option (Kind × Nat))} {m : Kind × Nat} (member : some m ∈ found)
    (init : Option (Kind × Nat)) : ∃ best, found.foldr longer init = some best ∧ m.2 ≤ best.2 := by
  induction found with
  | nil => cases member
  | cons first rest ih =>
    rw [List.foldr_cons]
    rcases List.mem_cons.mp member with here | later
    · exact exists_longer (Or.inl here.symm)
    · obtain ⟨best, chosen, bound⟩ := ih later
      obtain ⟨longest, chosen', bound'⟩ := exists_longer (a := first) (Or.inr chosen)
      exact ⟨longest, chosen', bound.trans bound'⟩

theorem longer_cases {a b : Option (Kind × Nat)} {best : Kind × Nat} (chosen : longer a b = some best) :
    a = some best ∨ b = some best ∧ ∀ m, a = some m → m.2 < best.2 := by
  cases a <;> cases b <;> grind [longer]

/-- Among matches as long as the chosen one, the first are preferred. -/
theorem mem_of_foldr_longer {found : List (Option (Kind × Nat))} {init : Option (Kind × Nat)}
    {best m : Kind × Nat} (chosen : found.foldr longer init = some best) (member : some m ∈ found)
    (tie : best.2 ≤ m.2) : some best ∈ found := by
  induction found with
  | nil => cases member
  | cons first rest ih =>
    rw [List.foldr_cons] at chosen
    rcases longer_cases chosen with here | ⟨later, shorter⟩
    · exact here ▸ List.mem_cons_self
    · rcases List.mem_cons.mp member with here | member
      · exact absurd tie (Nat.not_le.mpr (shorter m here.symm))
      · exact List.mem_cons_of_mem _ (ih later member)

/-! Comments -/

theorem toCommentEnd_cons {c : Char} {rest : List Char} (inside : ¬ ['*', '/'] <+: c :: rest) :
    toCommentEnd (c :: rest) = (toCommentEnd rest).map (· + 1) := by
  rw [toCommentEnd]
  rintro rest rfl rfl
  exact inside ⟨rest, rfl⟩

/-- A comment ends at the first asterisk with a slash behind it. -/
theorem toCommentEnd_append {body behind : List Char} (inside : ¬ ['*', '/'] <:+: body ++ ['*']) :
    toCommentEnd (body ++ '*' :: '/' :: behind) = some (body.length + 2) := by
  induction body with
  | nil => rfl
  | cons c body ih =>
    have first : ¬ ['*', '/'] <+: c :: (body ++ '*' :: '/' :: behind) := by
      rintro ⟨more, same⟩
      obtain ⟨rfl, next⟩ := List.cons.inj same
      cases body with
      | nil => cases (List.cons.inj next).1
      | cons d body =>
        obtain ⟨rfl, _⟩ := List.cons.inj next
        exact inside ⟨[], body ++ ['*'], rfl⟩
    have later : ¬ ['*', '/'] <:+: body ++ ['*'] := fun found =>
      inside (found.trans (List.suffix_cons _ _).isInfix)
    rw [List.cons_append, toCommentEnd_cons first, ih later]
    rfl

theorem toCommentEnd_eq_none {body : List Char} (inside : ¬ ['*', '/'] <:+: body) :
    toCommentEnd body = none := by
  induction body with
  | nil => rfl
  | cons c body ih =>
    rw [toCommentEnd_cons fun first => inside first.isInfix,
      ih fun later => inside (later.trans (List.suffix_cons _ _).isInfix)]
    rfl

/-! Keywords -/

theorem exists_spelling_of_keyword {entry : Kind × Pattern} (member : entry ∈ patterns)
    (keyword : entry.1.isKeyword = true) :
    ∃ spelled ∈ fixedSpellings, (spelled.1, Pattern.text spelled.2) = entry := by
  have named : ∀ entry ∈ variedPatterns, entry.1.isKeyword = false := by decide
  rcases mem_patterns_iff.mp member with fixed | varied
  · exact fixed
  · rw [named entry varied] at keyword
    cases keyword

/-- A keyword has the form of an identifier. -/
theorem matches_ident_of_keyword {entry : Kind × Pattern} (member : entry ∈ patterns)
    (keyword : entry.1.isKeyword = true) {s : List Char} (matched : Matches entry.2 s) :
    ∃ other ∈ patterns, other.1 = .ident ∧ Matches other.2 s := by
  obtain ⟨spelled, listed, rfl⟩ := exists_spelling_of_keyword member keyword
  obtain ⟨other, varied, ident⟩ : ∃ other ∈ variedPatterns, other.1 = .ident := by decide
  have accepted := (spellings_apart spelled listed).2.2 other varied
  rw [ident, beq_self_eq_true, Bool.and_true, keyword] at accepted
  rw [matches_text_iff.mp matched]
  exact ⟨other, mem_patterns_iff.mpr (Or.inr varied), ident, accepts_iff.mp accepted⟩

theorem not_comment_of_keyword {entry : Kind × Pattern} (member : entry ∈ patterns)
    (keyword : entry.1.isKeyword = true) {c : Char} {rest s : List Char}
    (matched : Matches entry.2 (c :: s)) : ¬ ['/', '*'] <+: c :: rest := by
  have noSlash : ∀ entry ∈ patterns, entry.1.isKeyword = true → entry.2.mayStart '/' = false := by
    decide +kernel
  intro comment
  have start := mayStart_of_matches matched
  rw [← (List.cons_prefix_cons.mp comment).1, noSlash entry member keyword] at start
  cases start

/-! One token -/

/-- What is taken at the beginning of a text as a token of some kind, with the rest behind it. A comment in
blocks ends at its first end. What else a pattern describes is taken as far as one does, and has the kind
of such a pattern. What no pattern describes is unreadable. -/
structure Munch (kind : Kind) (taken rest : List Char) : Prop where
  nonempty : taken ≠ []
  comment : ∀ body behind, taken ++ rest = '/' :: '*' :: (body ++ '*' :: '/' :: behind) →
    ¬ ['*', '/'] <:+: body ++ ['*'] → kind = .blockComment ∧ taken = '/' :: '*' :: (body ++ ['*', '/'])
  unclosed : ∀ body, taken ++ rest = '/' :: '*' :: body → ¬ ['*', '/'] <:+: body →
    kind = .error ∧ taken = ['/', '*']
  longest : ¬ ['/', '*'] <+: taken ++ rest →
    ∀ entry ∈ patterns, ∀ s, s <+: taken ++ rest → Matches entry.2 s →
      s.length ≤ taken.length ∧ ∃ chosen ∈ patterns, Matches chosen.2 taken ∧ kind = chosen.1
  unmatched : ¬ ['/', '*'] <+: taken ++ rest →
    (∀ entry ∈ patterns, ∀ s, s <+: taken ++ rest → ¬ Matches entry.2 s) → kind = .error

theorem matches_of_blockComment {entry : Kind × Pattern} (member : entry ∈ patterns)
    (comment : entry.1 = .blockComment) {s : List Char} (matched : Matches entry.2 s) : s = ['/', '*'] := by
  have only : patterns.filter (·.1 == .blockComment) = [(.blockComment, Pattern.text "/*")] := rfl
  have listed : entry ∈ patterns.filter (·.1 == .blockComment) :=
    List.mem_filter.mpr ⟨member, by simp [comment]⟩
  rw [only, List.mem_singleton] at listed
  subst listed
  exact matches_text_iff.mp matched

/-- What starts like a comment in blocks is described by nothing but the beginning of one. -/
theorem eq_of_matches_comment {entry : Kind × Pattern} (member : entry ∈ patterns) {s : List Char}
    (matched : Matches entry.2 ('/' :: '*' :: s)) : entry.1 = .blockComment ∧ s = [] := by
  have others : (patterns.all fun entry =>
      entry.1 == .blockComment || isNever ((entry.2.after '/').after '*')) = true := by
    decide +kernel
  rcases Bool.or_eq_true_iff.mp (List.all_eq_true.mp others entry member) with comment | never
  · have start := matches_of_blockComment member (eq_of_beq comment) matched
    exact ⟨eq_of_beq comment, by simpa using start⟩
  · have later := matches_after_iff.mpr (matches_after_iff.mpr matched)
    exact absurd later (not_matches_of_isNever never)

namespace Engine

/-- An engine that matches what some pattern describes, and as much as any pattern does. -/
structure TakesLongest (e : Engine) : Prop where
  described : ∀ {c rest kind n}, e.match? c rest = some (kind, n) →
    n ≤ rest.length ∧ ∃ entry ∈ patterns, entry.1 = kind ∧ Matches entry.2 (c :: rest.take n)
  longest : ∀ {c rest s}, ∀ entry ∈ patterns, s <+: c :: rest → Matches entry.2 s →
    ∃ kind n, e.match? c rest = some (kind, n) ∧ s.length ≤ n + 1

/-- An engine that prefers the tokens with a fixed spelling, wherever a match could be of several kinds. -/
def PrefersFixed (e : Engine) : Prop :=
  ∀ {c rest kind n}, e.match? c rest = some (kind, n) →
    ∀ entry ∈ fixedPatterns, Matches entry.2 (c :: rest.take n) → kind = entry.1

variable {e : Engine}

theorem TakesLongest.match?_comment (longest : e.TakesLongest) (rest : List Char) :
    e.match? '/' ('*' :: rest) = some (.blockComment, 1) := by
  have listed : (Kind.blockComment, Pattern.text "/*") ∈ patterns :=
    mem_patterns_iff.mpr (Or.inl ⟨(.blockComment, "/*"), List.mem_cons_self, rfl⟩)
  have start : ['/', '*'] <+: '/' :: '*' :: rest := ⟨rest, rfl⟩
  obtain ⟨kind, n, matched, bound⟩ := longest.longest _ listed start (matches_text_iff.mpr rfl)
  obtain ⟨inside, entry, member, rfl, described⟩ := longest.described matched
  cases n with
  | zero => simp at bound
  | succ n =>
    obtain ⟨comment, nothing⟩ := eq_of_matches_comment member described
    rcases List.take_eq_nil_iff.mp nothing with rfl | rfl
    · rw [matched, comment]
    · have : n = 0 := by simpa using inside
      rw [matched, comment, this]

theorem TakesLongest.next_of_comment (longest : e.TakesLongest) {body behind : List Char}
    (inside : ¬ ['*', '/'] <:+: body ++ ['*']) :
    e.next '/' ('*' :: (body ++ '*' :: '/' :: behind)) = (.blockComment, 1 + (body.length + 2)) := by
  simp only [next, longest.match?_comment, List.drop_succ_cons, List.drop_zero, if_true,
    toCommentEnd_append inside]

theorem TakesLongest.next_of_unclosed (longest : e.TakesLongest) {body : List Char}
    (inside : ¬ ['*', '/'] <:+: body) : e.next '/' ('*' :: body) = (.error, 1) := by
  simp only [next, longest.match?_comment, List.drop_succ_cons, List.drop_zero, if_true,
    toCommentEnd_eq_none inside]

/-- Behind the beginning of no comment the token is what the engine matches. -/
theorem TakesLongest.next_of_match? (longest : e.TakesLongest) {c : Char} {rest : List Char}
    (other : ¬ ['/', '*'] <+: c :: rest) {kind : Kind} {n : Nat}
    (matched : e.match? c rest = some (kind, n)) : e.next c rest = (kind, n) := by
  have noComment : kind ≠ .blockComment := by
    rintro rfl
    obtain ⟨_, entry, member, comment, described⟩ := longest.described matched
    apply other
    rw [← matches_of_blockComment member comment described]
    exact List.cons_prefix_cons.mpr ⟨rfl, List.take_prefix n rest⟩
  simp only [next, matched, if_neg noComment]

theorem next_of_match?_eq_none {c : Char} {rest : List Char} (unmatched : e.match? c rest = none) :
    e.next c rest = (.error, e.skip c rest) := by
  simp only [next, unmatched]

theorem TakesLongest.munch_next (longest : e.TakesLongest) (c : Char) (rest : List Char) :
    Munch (e.next c rest).1 (c :: rest.take (e.next c rest).2) (rest.drop (e.next c rest).2) := by
  have whole : c :: rest.take (e.next c rest).2 ++ rest.drop (e.next c rest).2 = c :: rest := by
    rw [List.cons_append, List.take_append_drop]
  constructor
  case nonempty => exact List.cons_ne_nil _ _
  case comment =>
    intro body behind same inside
    obtain ⟨rfl, rfl⟩ := List.cons.inj (whole.symm.trans same)
    rw [longest.next_of_comment inside]
    refine ⟨rfl, ?_⟩
    simp [Nat.add_comm 1, List.take_append, List.take_of_length_le]
  case unclosed =>
    intro body same inside
    obtain ⟨rfl, rfl⟩ := List.cons.inj (whole.symm.trans same)
    rw [longest.next_of_unclosed inside]
    exact ⟨rfl, rfl⟩
  case longest =>
    rw [whole]
    intro other entry member s start matched
    obtain ⟨kind, n, chosen, bound⟩ := longest.longest entry member start matched
    obtain ⟨inside, entry, listed, named, described⟩ := longest.described chosen
    rw [longest.next_of_match? other chosen]
    refine ⟨?_, entry, listed, described, named.symm⟩
    rwa [List.length_cons, List.length_take_of_le inside]
  case unmatched =>
    rw [whole]
    intro other unread
    cases chosen : e.match? c rest with
    | none => rw [next_of_match?_eq_none chosen]
    | some best =>
      obtain ⟨_, entry, listed, _, described⟩ := longest.described chosen
      have start : c :: rest.take best.2 <+: c :: rest :=
        List.cons_prefix_cons.mpr ⟨rfl, List.take_prefix _ _⟩
      exact absurd described (unread entry listed _ start)

/-! The whole text -/

/-- A token is read at its offset, in front of what the tokens behind it hold. -/
theorem exists_next_of_split {text : String} {before after : List Token} {t : Token}
    (split : e.scan text = before ++ t :: after) :
    t.start = (before.map fun t => t.text.utf8ByteSize).sum ∧
      ∃ c rest, t.kind = (e.next c rest).1 ∧ t.text.toList = c :: rest.take (e.next c rest).2 ∧
        (after.flatMap fun t => t.text.toList) = rest.drop (e.next c rest).2 := by
  obtain ⟨place, c, rest, ahead, kind, taken⟩ := scanFrom_split split
  refine ⟨place.trans (Nat.zero_add _), c, rest, kind, taken, ?_⟩
  have texts := e.texts_scanFrom 0 0 text.toList
  rw [← scan, split, ahead] at texts
  simp only [List.flatMap_append, List.flatMap_cons, taken, List.append_cancel_left_eq,
    List.cons_append, List.cons.injEq, true_and] at texts
  exact List.append_cancel_left (texts.trans (List.take_append_drop _ rest).symm)

/-- A match is not read as a comment if it is a word. -/
theorem TakesLongest.match?_of_keyword (longest : e.TakesLongest) {entry : Kind × Pattern}
    (member : entry ∈ patterns) (keyword : entry.1.isKeyword = true) {c : Char} {rest : List Char}
    (matched : Matches entry.2 (c :: rest.take (e.next c rest).2)) :
    e.match? c rest = some (e.next c rest) := by
  have start : c :: rest.take (e.next c rest).2 <+: c :: rest :=
    List.cons_prefix_cons.mpr ⟨rfl, List.take_prefix _ rest⟩
  obtain ⟨kind, n, chosen, _⟩ := longest.longest entry member start matched
  rw [longest.next_of_match? (not_comment_of_keyword member keyword matched) chosen, chosen]

end Engine

/-! The engine that goes by the patterns -/

/-- A beginning of the text that a pattern describes is no longer than what the pattern finds. -/
theorem exists_mem_found {entries : List (Kind × Pattern)} {entry : Kind × Pattern}
    (member : entry ∈ entries) (listed : entry ∈ patterns) {c : Char} {rest s : List Char}
    (start : s <+: c :: rest) (matched : Matches entry.2 s) :
    ∃ n, some (entry.1, n) ∈ found entries c rest ∧ s.length ≤ n + 1 := by
  cases s with
  | nil =>
    have empty := matches_nil_iff.mp matched
    rw [not_nullable listed] at empty
    cases empty
  | cons d s =>
    obtain ⟨rfl, later⟩ := List.cons_prefix_cons.mp start
    obtain ⟨n, length, bound⟩ := exists_longest later (matches_after_iff.mpr matched)
    exact ⟨n, mem_found_iff.mpr ⟨entry, member, length, rfl⟩, Nat.succ_le_succ bound⟩

/-- What a pattern finds is described by it. -/
theorem exists_of_mem_found {entries : List (Kind × Pattern)} {c : Char} {rest : List Char}
    {m : Kind × Nat} (member : some m ∈ found entries c rest) :
    m.2 ≤ rest.length ∧ ∃ entry ∈ entries, entry.1 = m.1 ∧ Matches entry.2 (c :: rest.take m.2) := by
  obtain ⟨entry, listed, length, kind⟩ := mem_found_iff.mp member
  obtain ⟨bound, matched⟩ := matches_take_longest length
  exact ⟨bound, entry, listed, kind, matches_after_iff.mp matched⟩

theorem takesLongest_byPatterns : byPatterns.TakesLongest where
  described chosen := exists_of_mem_found (longer_foldr_mem chosen)
  longest entry member start matched := by
    obtain ⟨n, listed, bound⟩ := exists_mem_found member member start matched
    obtain ⟨best, chosen, longest⟩ := exists_foldr_longer listed none
    exact ⟨best.1, best.2, chosen, bound.trans (Nat.succ_le_succ longest)⟩

theorem prefersFixed_byPatterns : byPatterns.PrefersFixed := by
  intro c rest kind n chosen entry fixed matched
  have member : entry ∈ patterns := List.mem_append_left _ fixed
  have start : c :: rest.take n <+: c :: rest := List.cons_prefix_cons.mpr ⟨rfl, List.take_prefix n rest⟩
  obtain ⟨m, here, bound⟩ := exists_mem_found fixed member start matched
  obtain ⟨inside, _⟩ := exists_of_mem_found (longer_foldr_mem chosen)
  rw [List.length_cons, List.length_take_of_le inside] at bound
  have parts : found patterns c rest = found fixedPatterns c rest ++ found variedPatterns c rest :=
    List.map_append
  -- The fixed spellings come first, so that one of them is chosen if one is as long as the match.
  change (found patterns c rest).foldr longer none = some (kind, n) at chosen
  rw [parts, List.foldr_append] at chosen
  have preferred := mem_of_foldr_longer chosen here (Nat.le_of_succ_le_succ bound)
  obtain ⟨_, other, fixed', named, shared⟩ := exists_of_mem_found preferred
  obtain ⟨spelled, listed, rfl⟩ := mem_fixedPatterns_iff.mp fixed
  obtain ⟨spelled', listed', rfl⟩ := mem_fixedPatterns_iff.mp fixed'
  have same := (matches_text_iff.mp shared).symm.trans (matches_text_iff.mp matched)
  exact named.symm.trans ((spellings_apart spelled' listed').2.1 spelled listed (String.toList_inj.mp same))

theorem takesLongest_engine : engine.TakesLongest where
  described matched := by
    obtain ⟨best, chosen, same⟩ := Option.map_eq_some_iff.mp matched
    obtain ⟨rfl, rfl⟩ := Prod.mk.inj same
    obtain ⟨inside, entry, listed, kind, described⟩ := takesLongest_byPatterns.described chosen
    refine ⟨inside, ?_⟩
    rcases settled_eq best.1 _ with same | ⟨keyword, ident⟩
    · exact ⟨entry, listed, kind.trans same.symm, described⟩
    · -- The keyword has become an identifier, which is described as well.
      obtain ⟨word, listed, named, shared⟩ := matches_ident_of_keyword listed (kind ▸ keyword) described
      exact ⟨word, listed, named.trans ident.symm, shared⟩
  longest entry member start matched := by
    obtain ⟨kind, n, chosen, bound⟩ := takesLongest_byPatterns.longest entry member start matched
    exact ⟨_, n, Option.map_eq_some_iff.mpr ⟨_, chosen, rfl⟩, bound⟩

theorem settled_of_keyword {kind : Kind} (keyword : kind.isKeyword = true) (behind : Option Char) :
    (settled kind behind = kind ∧ ∀ c ∈ behind, ¬ Text.LikeWord c) ∨
      (settled kind behind = .ident ∧ ∃ c ∈ behind, Text.LikeWord c) := by
  simp only [settled, keyword, Bool.true_and, ← Text.startsLikeWord_iff]
  cases behind with
  | none => simp
  | some c => cases like : Text.startsLikeWord c <;> simp [like]

/-- In a text as it is read, a keyword is taken for an identifier where the next character starts with the
byte of a letter or digit, and nowhere else. -/
theorem kind_of_keyword {text : String} {before after : List Token} {t : Token}
    (split : scan text = before ++ t :: after) {entry : Kind × Pattern} (member : entry ∈ patterns)
    (keyword : entry.1.isKeyword = true) (matched : Matches entry.2 t.text.toList) :
    Munch t.kind t.text.toList (after.flatMap fun t => t.text.toList) ∧
      ((t.kind = entry.1 ∧ ∀ c ∈ (after.flatMap fun t => t.text.toList).head?, ¬ Text.LikeWord c) ∨
        (t.kind = .ident ∧ ∃ c ∈ (after.flatMap fun t => t.text.toList).head?, Text.LikeWord c)) := by
  obtain ⟨_, c, rest, kind, taken, behind⟩ := Engine.exists_next_of_split split
  rw [taken] at matched
  rw [kind, taken, behind]
  refine ⟨takesLongest_engine.munch_next c rest, ?_⟩
  have chosen := takesLongest_engine.match?_of_keyword member keyword matched
  obtain ⟨best, first, same⟩ := Option.map_eq_some_iff.mp chosen
  rw [← same] at matched ⊢
  obtain ⟨spelled, listed, rfl⟩ := exists_spelling_of_keyword member keyword
  have preferred := prefersFixed_byPatterns first _ (mem_fixedPatterns_iff.mpr ⟨spelled, listed, rfl⟩) matched
  rw [preferred, List.head?_drop]
  exact settled_of_keyword keyword _

end GoNav.Token
