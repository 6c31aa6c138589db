import GoNav.Grammar.Rules

namespace GoNav.Grammar

/-- A search that goes on round after round ends with an answer. No bound is set on its rounds. -/
inductive Ends {σ : Type} (round : σ → Bool ⊕ σ) : σ → Bool → Prop
  | now {x : σ} {answer : Bool} (last : round x = .inl answer) : Ends round x answer
  | later {x y : σ} {answer : Bool} (next : round x = .inr y) (rest : Ends round y answer) :
      Ends round x answer

namespace View

/-- A round of the search for `name {, name} :=`, which has come `n` places ahead. -/
def definesRound (v : View) (n : Nat) : Bool ⊕ Nat :=
  if v.kindAt n == .ident then
    match v.kindAt (n + 1) with
    | .comma => .inr (n + 2)
    | .colonEq => .inl true
    | _ => .inl false
  else .inl false

/-- A round of the search for the first `:=` ahead. The end of the file does not end it. -/
def rangeRound (v : View) (n : Nat) : Bool ⊕ Nat :=
  if v.kindAt n == .colonEq then .inl (v.kindAt (n + 1) == .rangeKw) else .inr (n + 1)

/-- A round of the search for a group of parameters with a name. It keeps the number of open brackets, the
first tokens of the group, and the place to which it has come. -/
def parameterRound (v : View) : (Nat × List Kind) × Nat → Bool ⊕ ((Nat × List Kind) × Nat)
  | ((depth, group), n) =>
    match v.ahead[n]? with
    | none => .inl false
    | some l =>
      let extended := if group.length < 2 then group ++ [l.kind] else group
      match l.kind with
      | .leftParen | .leftBracket | .leftBrace => .inr ((depth + 1, extended), n + 1)
      | .rightParen | .rightBracket | .rightBrace =>
        if depth = 0 then .inl (namedGroup group) else .inr ((depth - 1, extended), n + 1)
      | .comma =>
        if depth = 0 then if namedGroup group then .inl true else .inr ((0, []), n + 1)
        else .inr ((depth, extended), n + 1)
      | _ => .inr ((depth, extended), n + 1)

/-- A round of the search for a colon in brackets. It keeps the number of open brackets and the place. -/
def colonRound (v : View) : Nat × Nat → Bool ⊕ (Nat × Nat)
  | (depth, n) =>
    match v.ahead[n]? with
    | none => .inl false
    | some l =>
      match l.kind with
      | .leftParen | .leftBracket | .leftBrace => .inr (depth + 1, n + 1)
      | .rightParen | .rightBrace => .inr (depth - 1, n + 1)
      | .rightBracket => if depth = 0 then .inl false else .inr (depth - 1, n + 1)
      | .colon => if depth = 0 then .inl true else .inr (depth, n + 1)
      | _ => .inr (depth, n + 1)

variable {v : View}

/-- A search that ends at the end of the file and goes on by one place each round ends. -/
theorem ends_of_rounds {σ : Type} {round : σ × Nat → Bool ⊕ (σ × Nat)} (answer : σ → List Kind → Bool)
    (stop : ∀ x n, v.ahead[n]? = none → round (x, n) = .inl (answer x []))
    (step : ∀ x n l rest, v.ahead[n]? = some l → round (x, n) = .inl (answer x (l.kind :: rest)) ∨
      ∃ y, round (x, n) = .inr (y, n + 1) ∧ answer y rest = answer x (l.kind :: rest))
    (x : σ) (n : Nat) : Ends round (x, n) (answer x ((v.ahead.drop n).map Lexeme.kind)) := by
  generalize split : v.ahead.drop n = ahead
  induction ahead generalizing x n with
  | nil =>
    have none : v.ahead[n]? = none := by rw [← List.head?_drop, split]; rfl
    exact .now (stop x n none)
  | cons l rest ih =>
    have here : v.ahead[n]? = some l := by rw [← List.head?_drop, split]; rfl
    have behind : v.ahead.drop (n + 1) = rest := by rw [← List.tail_drop, split]; rfl
    rw [List.map_cons]
    rcases step x n l (rest.map Lexeme.kind) here with last | ⟨y, next, same⟩
    · exact .now last
    · exact .later next (same ▸ ih y (n + 1) behind)

theorem ends_parameterRound (n : Nat) :
    Ends v.parameterRound ((0, []), n) (namesParameters 0 [] ((v.ahead.drop n).map Lexeme.kind)) := by
  refine ends_of_rounds (fun x => namesParameters x.1 x.2) ?_ ?_ (0, []) n
  · rintro ⟨depth, group⟩ n none
    simp only [parameterRound, none, namesParameters]
  · rintro ⟨depth, group⟩ n l rest here
    simp only [parameterRound, here, namesParameters]
    generalize (if group.length < 2 then group ++ [l.kind] else group) = extended
    split <;> cases depth <;> grind

theorem ends_colonRound (n : Nat) :
    Ends v.colonRound (0, n) (colonInBrackets 0 ((v.ahead.drop n).map Lexeme.kind)) := by
  refine ends_of_rounds colonInBrackets ?_ ?_ 0 n
  · intro depth n none
    simp only [colonRound, none, colonInBrackets]
  · intro depth n l rest here
    simp only [colonRound, here]
    split <;> cases depth <;> grind [colonInBrackets]

theorem kindAt_add (v : View) (n i : Nat) :
    v.kindAt (n + i) = ((v.ahead.drop n).map Lexeme.kind)[i]?.getD .error := by
  simp only [kindAt, List.getElem?_map, List.getElem?_drop]

theorem map_kind_drop_succ {kind : Kind} {rest : List Kind} {n : Nat}
    (split : (v.ahead.drop n).map Lexeme.kind = kind :: rest) :
    (v.ahead.drop (n + 1)).map Lexeme.kind = rest := by
  rw [← List.tail_drop, List.map_tail, split]
  rfl

theorem ends_definesRound (n : Nat) :
    Ends v.definesRound n (definesShort ((v.ahead.drop n).map Lexeme.kind)) := by
  generalize split : (v.ahead.drop n).map Lexeme.kind = kinds
  have first := v.kindAt_add n 0
  have second := v.kindAt_add n 1
  rw [split] at first second
  fun_induction definesShort kinds generalizing n with
  | case1 rest => exact .now (by simp_all [definesRound])
  | case2 rest ih =>
    have behind := map_kind_drop_succ (map_kind_drop_succ split)
    have next : v.definesRound n = .inr (n + 2) := by simp_all [definesRound]
    refine .later next (ih (n + 2) behind ?_ ?_)
    · rw [kindAt_add, behind]
    · rw [kindAt_add, behind]
  | case3 kinds short more =>
    refine .now ?_
    match kinds with
    | [] => simp_all [definesRound]
    | [kind] => simp_all [definesRound]
    | kind :: other :: rest => simp_all [definesRound]

theorem mem_of_definesShort {kinds : List Kind} (defines : definesShort kinds = true) :
    .colonEq ∈ kinds := by
  fun_induction definesShort kinds with
  | case1 => simp
  | case2 rest ih => simp [ih defines]
  | case3 => cases defines

/-- The search for the first `:=` ends if there is one ahead. -/
theorem ends_rangeRound {n : Nat} (define : .colonEq ∈ (v.ahead.drop n).map Lexeme.kind) :
    Ends v.rangeRound n (rangeBehindDefine ((v.ahead.drop n).map Lexeme.kind)) := by
  generalize split : (v.ahead.drop n).map Lexeme.kind = kinds at *
  have first := v.kindAt_add n 0
  have second := v.kindAt_add n 1
  rw [split] at first second
  fun_induction rangeBehindDefine kinds generalizing n with
  | case1 next rest => exact .now (by simp_all [rangeRound])
  | case2 => exact .now (by simp_all [rangeRound])
  | case3 kind rest another alone ih =>
    have other : kind ≠ .colonEq := by
      intro same
      cases rest with
      | nil => exact alone same rfl
      | cons next tail => exact another next tail same rfl
    have behind := map_kind_drop_succ split
    have next : v.rangeRound n = .inr (n + 1) := by simp_all [rangeRound]
    refine .later next (ih behind ((List.mem_cons.mp define).resolve_left other.symm) ?_ ?_)
    · rw [kindAt_add, behind]
    · rw [kindAt_add, behind]
  | case4 => cases define

end View

/-- A question is answered by searches that end. The right side of a conjunction or disjunction is not
asked where the left side decides. -/
inductive Look.Settles (v : View) : Look → Bool → Prop
  | shortDefinition {answer : Bool} (ends : Ends v.definesRound 0 answer) :
      Settles v .shortDefinition answer
  | rangeDefinition {answer : Bool} (ends : Ends v.rangeRound 0 answer) :
      Settles v .rangeDefinition answer
  | namedParameters {answer : Bool} (ends : Ends v.parameterRound ((0, []), 0) answer) :
      Settles v .namedParameters answer
  | bracketColon {answer : Bool} (ends : Ends v.colonRound (0, 1) answer) : Settles v .bracketColon answer
  | current (kind : Kind) : Settles v (.current kind) ((Look.current kind).holds v)
  | currentAny (kinds : List Kind) : Settles v (.currentAny kinds) ((Look.currentAny kinds).holds v)
  | next (n : Nat) (kind : Kind) : Settles v (.next n kind) ((Look.next n kind).holds v)
  | atEnd : Settles v .atEnd (Look.atEnd.holds v)
  | implicitEnd : Settles v .implicitEnd (Look.implicitEnd.holds v)
  | newlineBefore (n : Nat) : Settles v (.newlineBefore n) ((Look.newlineBefore n).holds v)
  | inHeader : Settles v .inHeader (Look.inHeader.holds v)
  | not {look : Look} {answer : Bool} : Settles v look answer → Settles v (.not look) !answer
  | andLeft {left right : Look} : Settles v left false → Settles v (.and left right) false
  | andRight {left right : Look} {answer : Bool} :
      Settles v left true → Settles v right answer → Settles v (.and left right) answer
  | orLeft {left right : Look} : Settles v left true → Settles v (.or left right) true
  | orRight {left right : Look} {answer : Bool} :
      Settles v left false → Settles v right answer → Settles v (.or left right) answer

namespace Look

/-- Whether the search for the first `:=` is made only behind the one for a short definition. -/
def guardsRange : Look → Bool
  | .rangeDefinition => false
  | .and .shortDefinition .rangeDefinition => true
  | .not look => look.guardsRange
  | .and left right | .or left right => left.guardsRange && right.guardsRange
  | _ => true

theorem Settles.and {v : View} {left right : Look} (first : left.Settles v (left.holds v))
    (second : left.holds v = true → right.Settles v (right.holds v)) :
    (Look.and left right).Settles v ((Look.and left right).holds v) := by
  rw [holds]
  cases answer : left.holds v with
  | false => exact .andLeft (answer ▸ first)
  | true => exact .andRight (answer ▸ first) (second answer)

theorem Settles.or {v : View} {left right : Look} (first : left.Settles v (left.holds v))
    (second : right.Settles v (right.holds v)) :
    (Look.or left right).Settles v ((Look.or left right).holds v) := by
  rw [holds]
  cases answer : left.holds v with
  | false => exact .orRight (answer ▸ first) second
  | true => exact .orLeft (answer ▸ first)

theorem settles_shortDefinition (v : View) : shortDefinition.Settles v (shortDefinition.holds v) :=
  .shortDefinition (v.ends_definesRound 0)

/-- Every search ends with the answer that the tokens ahead give. -/
theorem settles {look : Look} (guarded : look.guardsRange = true) (v : View) :
    look.Settles v (look.holds v) := by
  fun_induction guardsRange look with
  | case1 => cases guarded
  | case2 =>
    refine (settles_shortDefinition v).and fun defines => ?_
    exact .rangeDefinition (View.ends_rangeRound (View.mem_of_definesShort defines))
  | case3 look ih => exact .not (ih guarded)
  | case4 left right _ ihLeft ihRight =>
    obtain ⟨first, second⟩ := Bool.and_eq_true_iff.mp guarded
    exact (ihLeft first).and fun _ => ihRight second
  | case5 left right ihLeft ihRight =>
    obtain ⟨first, second⟩ := Bool.and_eq_true_iff.mp guarded
    exact (ihLeft first).or (ihRight second)
  | case6 look other together negation conjunction disjunction =>
    cases look with
    | current kind => exact .current kind
    | currentAny kinds => exact .currentAny kinds
    | next n kind => exact .next n kind
    | atEnd => exact .atEnd
    | implicitEnd => exact .implicitEnd
    | newlineBefore n => exact .newlineBefore n
    | inHeader => exact .inHeader
    | shortDefinition => exact settles_shortDefinition v
    | rangeDefinition => exact absurd rfl other
    | namedParameters => exact .namedParameters (v.ends_parameterRound 0)
    | bracketColon =>
      have ends := v.ends_colonRound 1
      rw [List.drop_one] at ends
      exact .bracketColon ends
    | not look => exact absurd rfl (negation look)
    | and left right => exact absurd rfl (conjunction left right)
    | or left right => exact absurd rfl (disjunction left right)

end Look

end GoNav.Grammar
