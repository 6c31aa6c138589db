import GoNav.Token.Engine
import Mathlib.Algebra.GroupWithZero.Nat

namespace GoNav.Token

/-! Scanning with any engine -/

namespace Engine

variable {e : Engine}

theorem scanFrom_zero_cons (start : Nat) (c : Char) (rest : List Char) :
    let text := String.ofList (c :: rest.take (e.next c rest).2)
    e.scanFrom start 0 (c :: rest) =
      { kind := (e.next c rest).1, text, start } ::
        e.scanFrom (start + text.utf8ByteSize) (e.next c rest).2 rest :=
  rfl

/-- Scanning takes every character into exactly one token. -/
theorem texts_scanFrom (start skip : Nat) (cs : List Char) :
    (e.scanFrom start skip cs).flatMap (fun t => t.text.toList) = cs.drop skip := by
  induction cs generalizing start skip with
  | nil => simp [scanFrom]
  | cons c rest ih =>
    cases skip with
    | zero => simp [scanFrom, ih]
    | succ n => simp [scanFrom, ih]

theorem join_texts_scan (text : String) : String.join ((e.scan text).map Token.text) = text := by
  have texts := e.texts_scanFrom 0 0 text.toList
  apply String.toList_inj.mp
  simpa [scan, List.flatMap_map] using texts

/-- A token of a text is what is read at its place, behind the tokens before it. -/
theorem scanFrom_split {start skip : Nat} {cs : List Char} {before after : List Token} {t : Token}
    (split : e.scanFrom start skip cs = before ++ t :: after) :
    t.start = start + (before.map fun t => t.text.utf8ByteSize).sum ∧
      ∃ c rest, cs.drop skip = before.flatMap (fun t => t.text.toList) ++ c :: rest ∧
        t.kind = (e.next c rest).1 ∧ t.text.toList = c :: rest.take (e.next c rest).2 := by
  induction cs generalizing start skip before with
  | nil => simp [scanFrom] at split
  | cons c rest ih =>
    cases skip with
    | succ n => exact ih split
    | zero =>
      rw [scanFrom_zero_cons] at split
      cases before with
      | nil =>
        obtain ⟨rfl, _⟩ := List.cons.inj split
        refine ⟨rfl, c, rest, rfl, rfl, ?_⟩
        simp
      | cons first before =>
        obtain ⟨rfl, later⟩ := List.cons.inj split
        obtain ⟨place, d, rest', text, kind, taken⟩ := ih later
        refine ⟨by simp [place, Nat.add_assoc], d, rest', ?_, kind, taken⟩
        simp [← text]

/-- A token is what the scanner finds at some character of the text. -/
theorem exists_next_of_mem_scanFrom {t : Token} {start skip : Nat} {cs : List Char}
    (member : t ∈ e.scanFrom start skip cs) :
    ∃ c rest, t.kind = (e.next c rest).1 ∧ t.text = String.ofList (c :: rest.take (e.next c rest).2) := by
  obtain ⟨before, after, split⟩ := List.append_of_mem member
  obtain ⟨_, c, rest, _, kind, taken⟩ := scanFrom_split split
  exact ⟨c, rest, kind, by rw [← taken, String.ofList_toList]⟩

end Engine

/-! The engine by which texts are read -/

theorem longer_foldr_mem {found : List (Option (Kind × Nat))} {best : Kind × Nat}
    (chosen : found.foldr longer none = some best) : some best ∈ found := by
  induction found with
  | nil => simp at chosen
  | cons first rest ih =>
    simp only [List.foldr_cons] at chosen
    cases first with
    | none => exact List.mem_cons_of_mem _ (ih chosen)
    | some a =>
      cases later : rest.foldr longer none with
      | none => simp_all [longer]
      | some b =>
        rw [later] at chosen ih
        simp only [longer] at chosen
        split at chosen
        · exact List.mem_cons_of_mem _ (ih chosen)
        · exact chosen ▸ List.mem_cons_self ..

theorem mem_found_iff {entries : List (Kind × Pattern)} {c : Char} {rest : List Char} {m : Kind × Nat} :
    some m ∈ found entries c rest ↔
      ∃ entry ∈ entries, (entry.2.after c).longest rest = some m.2 ∧ entry.1 = m.1 := by
  rw [found, List.mem_map]
  constructor
  · rintro ⟨entry, member, same⟩
    obtain ⟨n, length, rfl⟩ := Option.map_eq_some_iff.mp same
    exact ⟨entry, member, length, rfl⟩
  · rintro ⟨entry, member, length, same⟩
    exact ⟨entry, member, by rw [length, same]; rfl⟩

theorem settled_eq (kind : Kind) (behind : Option Char) :
    settled kind behind = kind ∨ kind.isKeyword = true ∧ settled kind behind = .ident := by
  rw [settled]
  split
  · rename_i keyword
    exact Or.inr ⟨(Bool.and_eq_true_iff.mp keyword).1, rfl⟩
  · exact Or.inl rfl

/-- A token is a comment in blocks, or unreadable, or it comes from a pattern and has the kind of that
pattern, unless a keyword has become an identifier. -/
theorem next_cases (c : Char) (rest : List Char) :
    (engine.next c rest).1 = .blockComment ∨ (engine.next c rest).1 = .error ∨
      ∃ entry ∈ patterns, (entry.2.after c).longest rest = some (engine.next c rest).2 ∧
        ((engine.next c rest).1 = entry.1 ∨ entry.1.isKeyword = true ∧ (engine.next c rest).1 = .ident) := by
  unfold Engine.next
  split
  · exact Or.inr (Or.inl rfl)
  · rename_i kind n matched
    obtain ⟨best, chosen, same⟩ := Option.map_eq_some_iff.mp matched
    obtain ⟨rfl, rfl⟩ := Prod.mk.inj same
    split
    · split
      · exact Or.inl rfl
      · exact Or.inr (Or.inl rfl)
    · obtain ⟨entry, member, longest, own⟩ := mem_found_iff.mp (longer_foldr_mem chosen)
      refine Or.inr (Or.inr ⟨entry, member, longest, ?_⟩)
      rw [own]
      exact settled_eq best.1 rest[best.2]?

/-- Whether a pattern is the one that describes nothing. -/
def isNever : Pattern → Bool
  | .never => true
  | _ => false

theorem longest_of_isNever {p : Pattern} (never : isNever p = true) (cs : List Char) :
    p.longest cs = none := by
  cases p <;> simp_all [isNever, Pattern.longest]

theorem not_matches_of_isNever {p : Pattern} (never : isNever p = true) {s : List Char} :
    ¬ Pattern.Matches p s := by
  intro matched
  cases matched <;> cases never

theorem longest_empty (cs : List Char) : Pattern.empty.longest cs = some 0 := by
  cases cs <;> simp [Pattern.longest, Pattern.after, Pattern.nullable]

/-- No identifier and no keyword starts with a dot. -/
theorem not_isWord_after_dot :
    (patterns.all fun entry =>
      isNever (entry.2.after '.') || !(entry.1 == .ident || entry.1.isKeyword)) = true := by
  decide +kernel

theorem next_dot_ne_ident (rest : List Char) : (engine.next '.' rest).1 ≠ .ident := by
  intro ident
  rcases next_cases '.' rest with comment | unreadable | ⟨entry, member, longest, kind⟩
  · rw [ident] at comment
    cases comment
  · rw [ident] at unreadable
    cases unreadable
  · have word : (entry.1 == .ident || entry.1.isKeyword) = true := by
      rcases kind with same | ⟨keyword, _⟩
      · simp [← same, ident]
      · simp [keyword]
    have never := List.all_eq_true.mp not_isWord_after_dot entry member
    rw [word, Bool.not_true, Bool.or_false] at never
    rw [longest_of_isNever never] at longest
    cases longest

/-- The text of an identifier does not start with a dot. -/
theorem head_of_ident {text : String} {t : Token} (member : t ∈ scan text) (ident : t.kind = .ident) :
    ∃ c rest, t.text = String.ofList (c :: rest) ∧ c ≠ '.' := by
  obtain ⟨c, rest, kind, written⟩ := Engine.exists_next_of_mem_scanFrom member
  refine ⟨c, _, written, ?_⟩
  rintro rfl
  exact next_dot_ne_ident rest (kind.symm.trans ident)

/-- The text of a dot is a dot. -/
theorem text_of_dot {text : String} {t : Token} (member : t ∈ scan text) (dot : t.kind = .dot) :
    t.text = "." := by
  obtain ⟨c, rest, kind, written⟩ := Engine.exists_next_of_mem_scanFrom member
  rw [dot] at kind
  rcases next_cases c rest with comment | unreadable | ⟨entry, member, longest, same⟩
  · rw [← kind] at comment
    cases comment
  · rw [← kind] at unreadable
    cases unreadable
  · have found : entry.1 = .dot := by
      rcases same with same | ⟨_, ident⟩
      · exact same.symm.trans kind.symm
      · rw [← kind] at ident
        cases ident
    have only : patterns.filter (·.1 == .dot) = [(.dot, Pattern.text ".")] := rfl
    have listed : entry ∈ patterns.filter (·.1 == .dot) := List.mem_filter.mpr ⟨member, by simp [found]⟩
    rw [only, List.mem_singleton] at listed
    subst listed
    have after : (Pattern.text ".").after c = if c == '.' then .empty else .never := by
      change ((if c == '.' then Pattern.empty else .never).andThen .empty) = _
      split <;> rfl
    rw [after] at longest
    split at longest
    · rename_i isDot
      rw [longest_empty] at longest
      rw [written, ← Option.some.inj longest, eq_of_beq isDot]
      rfl
    · rw [longest_of_isNever rfl] at longest
      cases longest

end GoNav.Token
