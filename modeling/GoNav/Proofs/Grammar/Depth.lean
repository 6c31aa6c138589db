import GoNav.Proofs.Grammar.Survey
import GoNav.Proofs.Losslessness

namespace GoNav.Grammar

/-- The place of a rule in the order in which rules follow one another inward before a token is taken:
each is followed only from rules of a higher rank. -/
def Rule.rank (rule : Rule) (ready : Bool) : Nat :=
  match rule, ready with
  | .typeName, _ => 1
  | .typ, _ => 2
  | _, true => 0
  | .topLevelDecl, false => 1
  | .sourceFile, false => 2
  | .paramDecl _, false | .typeSpec, false | .fieldDecl, false => 3
  | .parameters, false | .operand, false => 4
  | .signature, false | .primary, false => 5
  | .interfaceElement, false | .unary, false => 6
  | .binary _, false => 7
  | .expression, false => 8
  | .expressionList, false | .elementValue, false => 9
  | .shortVarDecl, false | .element, false | .varSpec, false | .constSpec, false => 10
  | .headerPart, false | .forHeader, false | .literalValue, false => 11
  | .simpleStatement, false => 12
  | .statement, false => 13
  | .statementList, false => 14
  | .block, false => 15
  | _, false => 0

theorem Rule.rank_lt (rule : Rule) (ready : Bool) : rule.rank ready < Parse.rulesPerToken := by
  unfold Rule.rank
  split <;> decide

/-- The account of which rules may be followed: those of a rank below a number, and all of them as soon
as a token is taken. Without a bound, it only tells whether a token is taken. -/
def budget (bounded : Bool) : Account Nat where
  lenient := true
  bump first limit := some (if first.isSome then Parse.rulesPerToken else limit)
  opened _ limit := limit
  closed _ _ limit := some limit
  wrapped _ limit := some limit
  moved _ := Parse.rulesPerToken
  join limit other := some (min limit other)
  start rule ready := if bounded then rule.rank ready else 0
  ends _ ready limit := !ready || limit == Parse.rulesPerToken
  called rule ready limit :=
    if bounded && limit ≤ rule.rank ready then none
    else some (if ready then Parse.rulesPerToken else limit)

/-- The tokens ahead, together with the rules that may be followed before one of them is taken, are
within a bound. -/
def Affords (bound limit : Nat) (s : State) : Prop :=
  Parse.rulesPerToken * s.remaining + limit ≤ bound

theorem Affords.taken {bound limit : Nat} {s t : State} (affords : Affords bound limit s)
    (taken : t.remaining < s.remaining) : Affords bound Parse.rulesPerToken t := by
  have more := Nat.mul_le_mul_left Parse.rulesPerToken taken
  simp only [Affords, Nat.mul_succ] at *
  omega

theorem Affords.of_le {bound limit : Nat} {s t : State} (affords : Affords bound limit s)
    (fewer : t.remaining ≤ s.remaining) : Affords bound limit t := by
  have more := Nat.mul_le_mul_left Parse.rulesPerToken fewer
  simp only [Affords] at *
  omega

theorem budget_sound (bounded : Bool) : (budget bounded).Sound Affords where
  bump {bound limit next s first} tidy held known counted := by
    cases first with
    | none =>
      cases counted
      refine held.of_le ?_
      simp only [State.remaining, s.bump_ahead, List.length_tail]
      omega
    | some place =>
      cases counted
      obtain ⟨l, rest, ahead, _⟩ := known place rfl
      refine held.taken (State.remaining_bump ?_)
      rw [ahead]
      exact List.cons_ne_nil l rest
  inside {bound limit s} kind tidy held := by
    refine ⟨bound, held, fun {e' e'' t} _ inner closed => ?_⟩
    cases closed
    exact inner
  wrap held counted := by
    cases counted
    exact held
  report _ _ held := held
  header _ held := held
  moved before _ taken := before.taken taken
  join {bound limit other least s} joined held := by
    cases joined
    simp only [Affords] at *
    omega
  called {bound limit next s rule ready} held counted := by
    have rank := rule.rank_lt ready
    refine ⟨Parse.rulesPerToken * s.remaining + (budget bounded).start rule ready, Nat.le_refl _,
      fun {last t} fewer inner ends => ?_⟩
    simp only [budget] at counted ends inner
    split at counted
    · cases counted
    · cases counted
      cases ready with
      | false => exact held.of_le fewer
      | true =>
        simp only [Bool.not_true, Bool.false_or, beq_iff_eq] at ends
        have started : (if bounded then rule.rank true else 0) < Parse.rulesPerToken := by
          split <;> omega
        refine held.taken (Nat.lt_of_mul_lt_mul_left (a := Parse.rulesPerToken) ?_)
        simp only [Affords, ends] at inner
        omega

theorem budget_passes (bounded : Bool) (rule : Rule) : (budget bounded).passes rule = true := by
  refine Account.passes_all (by cases bounded <;> decide +kernel) (fun n => ⟨?_, rfl⟩) rule
  funext ready
  cases ready <;> rfl

/-- Whether each loop of an action takes a token each time it goes round. -/
def Action.advances : Action → Bool
  | .seq first second => first.advances && second.advances
  | .branch question yes no => question.advances && yes.advances && no.advances
  | .node _ inner | .marked inner | .wrap _ inner | .header _ inner | .moves inner => inner.advances
  | .loop inner =>
    inner.advances && (inner.survey (budget false) .unknown 0).any
      (·.all fun way => !way.answer || way.account == Parse.rulesPerToken)
  | .answer _ | .ask _ | .bump | .fail _ | .call _ => true

theorem Rule.advances_body (rule : Rule) : rule.body.advances = true := by
  have listed : ∀ rule ∈ Rule.all, rule.body.advances = true := by decide +kernel
  rcases rule.mem_all with member | ⟨n, rfl⟩
  · exact listed rule member
  · rw [body_binary]
    exact listed (.binary 6) (by decide)

/-- A round of a loop that is to go on has taken a token. -/
theorem Does.remaining_lt {inner : Action} (advances : (Action.loop inner).advances = true) {n : Nat}
    {s t : State} (done : Does n inner s true t) (tidy : s.Tidy) : t.remaining < s.remaining := by
  obtain ⟨ways, surveyed, all⟩ := (Option.any_eq_true _ _).mp (Bool.and_eq_true_iff.mp advances).2
  obtain ⟨way, member, answer, _, affords⟩ := done.exists_way (budget_sound false) (budget_passes false)
    tidy (Or.inl rfl) (Nat.le_refl _) (Outlook.covers_unknown _) surveyed
  have taken := List.all_eq_true.mp all way member
  simp only [answer, Bool.not_true, Bool.false_or, beq_iff_eq] at taken
  rw [Affords, taken, Nat.add_zero, ← Nat.mul_succ] at affords
  exact Nat.le_of_mul_le_mul_left affords (by decide)

section

variable {follow : Rule → State → Bool × State} {bound depth : Nat}

/-- A loop of a known inside goes round until it is to stop: each time it has taken a token, so it is
not cut short. -/
theorem Action.does_iterate {inner : Action} (advances : (Action.loop inner).advances = true)
    {o : Outlook} {limit : Nat} {ways : List (Way Nat)}
    (done : ∀ s : State, s.Tidy → Affords bound limit s → o.covers s.kinds = true →
      Does depth inner s (inner.run follow s).1 (inner.run follow s).2)
    (surveyed : inner.survey (budget true) o limit = some ways)
    (stable : ∀ way ∈ ways, way.answer = true →
      (∀ kinds, way.outlook.covers kinds = true → o.covers kinds = true) ∧
        (budget true).join limit way.account = some limit)
    {n : Nat} {s : State} (enough : s.remaining < n) (tidy : s.Tidy) (held : Affords bound limit s)
    (covered : o.covers s.kinds = true) :
    Does depth (.loop inner) s (iterate (inner.run follow) n s).1 (iterate (inner.run follow) n s).2 := by
  induction n generalizing s with
  | zero => omega
  | succ n ih =>
    have round := done s tidy held covered
    rw [iterate]
    cases result : inner.run follow s with
    | mk again t =>
      rw [result] at round
      cases again with
      | false => exact .stop round
      | true =>
        obtain ⟨way, member, answer, covers, holds⟩ := round.exists_way (budget_sound true)
          (budget_passes true) tidy (Or.inl rfl) held covered surveyed
        obtain ⟨known, joined⟩ := stable way member answer
        have fewer := round.remaining_lt advances tidy
        exact .again round (ih (by omega) (tidy_stable.does round tidy)
          ((budget_sound true).join joined (Or.inr holds)) (known _ covers))

/-- An action runs as it does without bounds, if the rules that it follows do. -/
theorem Action.does_run
    (calls : ∀ (rule : Rule) (ready : Bool) (s : State), s.Tidy → rule.Entered ready s →
      Affords bound (rule.rank ready + 1) s → Does depth (.call rule) s (follow rule s).1 (follow rule s).2)
    {a : Action} (advances : a.advances = true) {s : State} {o : Outlook} {limit : Nat}
    {ways : List (Way Nat)} (tidy : s.Tidy) (held : Affords bound limit s) (covered : o.covers s.kinds = true)
    (surveyed : a.survey (budget true) o limit = some ways) :
    Does depth a s (a.run follow s).1 (a.run follow s).2 := by
  induction a generalizing s o limit ways with
  | answer value => exact .answer value s
  | ask look => exact .ask look s
  | bump => exact .bump s
  | fail cause => exact .fail cause s
  | seq first second ihFirst ihSecond =>
    obtain ⟨firstAdvances, secondAdvances⟩ := Bool.and_eq_true_iff.mp advances
    obtain ⟨middle, found, surveyed⟩ := Option.bind_eq_some_iff.mp surveyed
    have done := ihFirst firstAdvances tidy held covered found
    obtain ⟨way, member, _, covered, held⟩ := done.exists_way (budget_sound true) (budget_passes true)
      tidy (Or.inl rfl) held covered found
    obtain ⟨now, further, _⟩ := Way.exists_each surveyed member
    exact .seq done (ihSecond secondAdvances (tidy_stable.does done tidy) held covered further)
  | branch question yes no ihQuestion ihYes ihNo =>
    obtain ⟨asked, noAdvances⟩ := Bool.and_eq_true_iff.mp advances
    obtain ⟨questionAdvances, yesAdvances⟩ := Bool.and_eq_true_iff.mp asked
    obtain ⟨middle, found, surveyed⟩ := Option.bind_eq_some_iff.mp surveyed
    have done := ihQuestion questionAdvances tidy held covered found
    rw [Action.run]
    cases result : question.run follow s with
    | mk answer t =>
      rw [result] at done
      obtain ⟨way, member, answered, covered, held⟩ := done.exists_way (budget_sound true)
        (budget_passes true) tidy (Or.inl rfl) held covered found
      obtain ⟨now, further, _⟩ := Way.exists_each surveyed member
      rw [answered] at further
      cases answer with
      | true => exact .yes done (ihYes yesAdvances (tidy_stable.does done tidy) held covered further)
      | false => exact .no done (ihNo noAdvances (tidy_stable.does done tidy) held covered further)
  | node kind inner ih =>
    obtain ⟨middle, found, _⟩ := Option.bind_eq_some_iff.mp surveyed
    exact .node kind (ih advances tidy.skip held covered found)
  | marked inner ih =>
    obtain ⟨middle, found, _⟩ := Option.bind_eq_some_iff.mp surveyed
    exact .marked (ih advances tidy.skip held covered found)
  | wrap kind inner ih =>
    obtain ⟨middle, found, _⟩ := Option.bind_eq_some_iff.mp surveyed
    exact .wrap kind (ih advances tidy held covered found)
  | header within inner ih => exact .header within (ih advances (tidy.inHeader within) held covered surveyed)
  | moves inner ih =>
    obtain ⟨middle, found, _⟩ := Option.bind_eq_some_iff.mp surveyed
    exact .moves (ih advances tidy held covered found)
  | loop inner ih =>
    obtain ⟨o', limit', covers, holds, middle, found, _, _, stable⟩ :=
      (budget_sound true).exists_settled surveyed
    refine Action.does_iterate advances (fun s tidy held covered => ?_) found stable
      (Nat.lt_succ_self _) tidy (holds _ _ held) (covers _ covered)
    exact ih (Bool.and_eq_true_iff.mp advances).1 tidy held covered found
  | call rule =>
    rw [Action.survey] at surveyed
    split at surveyed
    · cases surveyed
    · rename_i allowed
      obtain ⟨_, counted, _⟩ := Option.map_eq_some_iff.mp surveyed
      refine calls rule _ s tidy (Rule.entered covered allowed) ?_
      simp only [budget, Bool.true_and, decide_eq_true_eq] at counted
      split at counted
      · cases counted
      · simp only [Affords] at held ⊢
        omega

end

/-- A rule is followed to its end if the depth covers the tokens ahead. -/
theorem Rule.does_run {depth : Nat} {rule : Rule} {ready : Bool} {s : State} (tidy : s.Tidy)
    (entered : rule.Entered ready s) (enough : Affords depth (rule.rank ready + 1) s) :
    Does depth (.call rule) s (rule.run depth s).1 (rule.run depth s).2 := by
  induction depth generalizing rule ready s with
  | zero =>
    simp only [Affords] at enough
    omega
  | succ depth ih =>
    obtain ⟨ways, surveyed, _⟩ := entered.exists_survey (budget_passes true rule)
    refine .call (Action.does_run (fun _ _ _ => ih) rule.advances_body tidy ?_ entered.covers surveyed)
    exact Nat.le_of_succ_le_succ enough

end GoNav.Grammar

namespace GoNav.Parse

open GoNav.Grammar

theorem length_lexemes_le (tokens lead : List Token) :
    (Input.group lead tokens).lexemes.length ≤ tokens.length := by
  induction tokens generalizing lead with
  | nil => exact Nat.le_refl _
  | cons t rest ih =>
    unfold Input.group
    split
    · exact Nat.le_succ_of_le (ih _)
    · exact Nat.succ_le_succ (ih _)

/-- The parse of a whole file is never cut short. -/
theorem does_finalState (tokens : List Token) :
    ∃ depth answer, Does depth (.call .sourceFile) (.ofTokens tokens) answer (finalState tokens) := by
  have entered : Rule.sourceFile.Entered false (.ofTokens tokens) :=
    ⟨fun guarded => absurd guarded (by decide), Outlook.covers_unknown _⟩
  refine ⟨_, _, Rule.does_run (Cursor.Tidy.ofTokens tokens) entered ?_⟩
  have fewer : (State.ofTokens tokens).remaining ≤ tokens.length := length_lexemes_le tokens []
  simp only [Affords, Rule.rank, rulesPerToken]
  omega

end GoNav.Parse
