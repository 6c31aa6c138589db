import GoNav.Proofs.Grammar.Depth
import GoNav.Proofs.Grammar.Lookahead

namespace GoNav.Grammar

/-- Doing the first action from a state comes to begin the second action in a state: what is to be done
before has ended, and what is begun need not end. -/
inductive Begins : Action → State → Action → State → Prop
  | self (a : Action) (s : State) : Begins a s a s
  | first {first second a : Action} {s u : State} : Begins first s a u → Begins (.seq first second) s a u
  | second {n : Nat} {first second a : Action} {s t u : State} {b : Bool} :
      Does n first s b t → Begins second t a u → Begins (.seq first second) s a u
  | question {question yes no a : Action} {s u : State} :
      Begins question s a u → Begins (.branch question yes no) s a u
  | yes {n : Nat} {question yes no a : Action} {s t u : State} :
      Does n question s true t → Begins yes t a u → Begins (.branch question yes no) s a u
  | no {n : Nat} {question yes no a : Action} {s t u : State} :
      Does n question s false t → Begins no t a u → Begins (.branch question yes no) s a u
  | node {inner a : Action} {s u : State} (kind : Kind) :
      Begins inner s.inside a u → Begins (.node kind inner) s a u
  | marked {inner a : Action} {s u : State} : Begins inner s.inside a u → Begins (.marked inner) s a u
  | wrap {inner a : Action} {s u : State} (kind : Kind) :
      Begins inner s a u → Begins (.wrap kind inner) s a u
  | header {inner a : Action} {s u : State} (within : Bool) :
      Begins inner { s with inHeader := within } a u → Begins (.header within inner) s a u
  | moves {inner a : Action} {s u : State} : Begins inner s a u → Begins (.moves inner) s a u
  | round {inner a : Action} {s u : State} : Begins inner s a u → Begins (.loop inner) s a u
  | again {n : Nat} {inner a : Action} {s t u : State} :
      Does n inner s true t → Begins (.loop inner) t a u → Begins (.loop inner) s a u
  | call {rule : Rule} {a : Action} {s u : State} : Begins rule.body s a u → Begins (.call rule) s a u

/-- No token comes back before an action is begun. -/
theorem Begins.ahead {a a' : Action} {s u : State} (begins : Begins a s a' u) : u.ahead <:+ s.ahead := by
  induction begins with
  | self => exact List.suffix_refl _
  | second done _ ih | yes done _ ih | no done _ ih | again done _ ih =>
    exact ih.trans (reads_stable.does done).ahead
  | first _ ih | question _ ih | node _ _ ih | marked _ ih | wrap _ _ ih | header _ _ ih | moves _ ih
  | round _ ih | call _ ih => exact ih

/-- A property that the parts of an action share with it, and that all rules have. -/
structure Inherited (P : Action → Prop) : Prop where
  seq {first second : Action} : P (.seq first second) → P first ∧ P second
  branch {question yes no : Action} : P (.branch question yes no) → P question ∧ P yes ∧ P no
  node {kind : Kind} {inner : Action} : P (.node kind inner) → P inner
  marked {inner : Action} : P (.marked inner) → P inner
  wrap {kind : Kind} {inner : Action} : P (.wrap kind inner) → P inner
  header {within : Bool} {inner : Action} : P (.header within inner) → P inner
  moves {inner : Action} : P (.moves inner) → P inner
  loop {inner : Action} : P (.loop inner) → P inner
  body (rule : Rule) : P rule.body

theorem Inherited.begins {P : Action → Prop} (inherited : Inherited P) {a a' : Action} {s u : State}
    (begins : Begins a s a' u) (whole : P a) : P a' := by
  induction begins with
  | self => exact whole
  | first _ ih => exact ih (inherited.seq whole).1
  | second _ _ ih => exact ih (inherited.seq whole).2
  | question _ ih => exact ih (inherited.branch whole).1
  | yes _ _ ih => exact ih (inherited.branch whole).2.1
  | no _ _ ih => exact ih (inherited.branch whole).2.2
  | node _ _ ih => exact ih (inherited.node whole)
  | marked _ ih => exact ih (inherited.marked whole)
  | wrap _ _ ih => exact ih (inherited.wrap whole)
  | header _ _ ih => exact ih (inherited.header whole)
  | moves _ ih => exact ih (inherited.moves whole)
  | round _ ih => exact ih (inherited.loop whole)
  | again _ _ ih => exact ih whole
  | call _ ih => exact ih (inherited.body _)

/-- An action has been surveyed for a state: the rules that it follows stay within a bound. -/
structure Surveyed (bound : Nat) (a : Action) (s : State) : Prop where
  tidy : s.Tidy
  exists_survey : ∃ o limit ways, Affords bound limit s ∧ o.covers s.kinds = true ∧
    a.survey (budget true) o limit = some ways

theorem Rule.Entered.surveyed {bound : Nat} {rule : Rule} {ready : Bool} {s : State}
    (entered : rule.Entered ready s) (tidy : s.Tidy) (enough : Affords bound (rule.rank ready) s) :
    Surveyed bound rule.body s := by
  obtain ⟨ways, surveyed, _⟩ := entered.exists_survey (budget_passes true rule)
  exact ⟨tidy, _, _, ways, enough, entered.covers, surveyed⟩

namespace Surveyed

variable {bound : Nat} {s : State}

theorem entered {rule : Rule} (surveyed : Surveyed bound (.call rule) s) :
    ∃ ready, rule.Entered ready s ∧ Affords bound (rule.rank ready + 1) s := by
  obtain ⟨tidy, o, limit, ways, held, covered, found⟩ := surveyed
  rw [Action.survey] at found
  split at found
  · cases found
  · rename_i allowed
    obtain ⟨_, counted, _⟩ := Option.map_eq_some_iff.mp found
    refine ⟨_, Rule.entered covered allowed, ?_⟩
    simp only [budget, Bool.true_and, decide_eq_true_eq] at counted
    split at counted
    · cases counted
    · simp only [Affords] at held ⊢
      omega

/-- What is surveyed comes to an end. -/
theorem exists_does {a : Action} (surveyed : Surveyed bound a s) (advances : a.advances = true) :
    ∃ answer t, Does bound a s answer t := by
  obtain ⟨tidy, o, limit, ways, held, covered, found⟩ := surveyed
  have calls (rule : Rule) (ready : Bool) (u : State) (tidy : u.Tidy) (entered : rule.Entered ready u)
      (enough : Affords bound (rule.rank ready + 1) u) :
      Does bound (.call rule) u (rule.run bound u).1 (rule.run bound u).2 :=
    Rule.does_run tidy entered enough
  exact ⟨_, _, Action.does_run calls advances tidy held covered found⟩

/-- What an action does first is surveyed with it. -/
theorem beginning {a first : Action} (surveyed : Surveyed bound a s)
    (parts : ∀ o limit, ∃ rest,
      a.survey (budget true) o limit = (first.survey (budget true) o limit).bind rest) :
    Surveyed bound first s := by
  obtain ⟨tidy, o, limit, ways, held, covered, found⟩ := surveyed
  obtain ⟨rest, split⟩ := parts o limit
  obtain ⟨middle, found, _⟩ := Option.bind_eq_some_iff.mp (split ▸ found)
  exact ⟨tidy, o, limit, middle, held, covered, found⟩

/-- Where an action goes on behind what it does first, one of the surveyed ways is gone. -/
theorem exists_next {n : Nat} {a first : Action} {b : Bool} {t : State}
    {next : Way Nat → Option (List (Way Nat))} (surveyed : Surveyed bound a s) (done : Does n first s b t)
    (parts : ∀ o limit, a.survey (budget true) o limit =
      (first.survey (budget true) o limit).bind (Way.each next)) :
    ∃ way now, way.answer = b ∧ Affords bound way.account t ∧ way.outlook.covers t.kinds = true ∧
      next way = some now := by
  obtain ⟨tidy, o, limit, ways, held, covered, found⟩ := surveyed
  obtain ⟨middle, found, rest⟩ := Option.bind_eq_some_iff.mp (parts o limit ▸ found)
  obtain ⟨way, member, answer, covered, held⟩ := done.exists_way (budget_sound true) (budget_passes true)
    tidy (Or.inl rfl) held covered found
  obtain ⟨now, further, _⟩ := Way.exists_each rest member
  exact ⟨way, now, answer, held, covered, further⟩

/-- Whatever a surveyed action begins is surveyed. -/
theorem begins {a a' : Action} {u : State} (surveyed : Surveyed bound a s) (begins : Begins a s a' u) :
    Surveyed bound a' u := by
  induction begins with
  | self => exact surveyed
  | first _ ih | question _ ih | wrap _ _ ih | moves _ ih =>
    exact ih (surveyed.beginning fun _ _ => ⟨_, rfl⟩)
  | node _ _ ih | marked _ ih =>
    obtain ⟨tidy, inner⟩ := surveyed.beginning fun _ _ => ⟨_, rfl⟩
    exact ih ⟨tidy.skip, inner⟩
  | header within _ ih => exact ih ⟨surveyed.tidy.inHeader within, surveyed.exists_survey⟩
  | second done _ ih =>
    obtain ⟨way, now, _, held, covered, further⟩ := surveyed.exists_next done fun _ _ => rfl
    exact ih ⟨tidy_stable.does done surveyed.tidy, _, _, now, held, covered, further⟩
  | yes done _ ih =>
    obtain ⟨way, now, answer, held, covered, further⟩ := surveyed.exists_next done fun _ _ => rfl
    rw [if_pos answer] at further
    exact ih ⟨tidy_stable.does done surveyed.tidy, _, _, now, held, covered, further⟩
  | no done _ ih =>
    obtain ⟨way, now, answer, held, covered, further⟩ := surveyed.exists_next done fun _ _ => rfl
    rw [if_neg (by rw [answer]; exact Bool.false_ne_true)] at further
    exact ih ⟨tidy_stable.does done surveyed.tidy, _, _, now, held, covered, further⟩
  | round _ ih =>
    obtain ⟨tidy, o, limit, ways, held, covered, found⟩ := surveyed
    obtain ⟨o', limit', covers, holds, middle, found, _⟩ := (budget_sound true).exists_settled found
    exact ih ⟨tidy, o', limit', middle, holds _ _ held, covers _ covered, found⟩
  | again done _ ih =>
    obtain ⟨tidy, o, limit, ways, held, covered, found⟩ := surveyed
    obtain ⟨o', limit', covers, holds, middle, found, _, settled, stable⟩ :=
      (budget_sound true).exists_settled found
    obtain ⟨way, member, answer, covered, held⟩ := done.exists_way (budget_sound true) (budget_passes true)
      tidy (Or.inl rfl) (holds _ _ held) (covers _ covered) found
    obtain ⟨known, joined⟩ := stable way member answer
    exact ih ⟨tidy_stable.does done tidy, o', limit', _, (budget_sound true).join joined (Or.inr held),
      known _ covered, settled 3⟩
  | call _ ih =>
    obtain ⟨ready, entered, enough⟩ := surveyed.entered
    exact ih (entered.surveyed surveyed.tidy (Nat.le_of_succ_le enough))

end Surveyed

/-! Rules that are followed again -/

namespace Rule

/-- The rule that stands for all rules that differ only in what is passed to them. -/
def family : Rule → Rule
  | .binary _ => .binary 0
  | .paramDecl _ => .paramDecl false
  | .commClause => .caseClause
  | rule => rule

theorem rank_family (rule : Rule) (ready : Bool) : rule.family.rank ready = rule.rank ready := by
  cases rule <;> cases ready <;> rfl

theorem entry_family (rule : Rule) (ready : Bool) : rule.family.entry ready = rule.entry ready := by
  cases rule <;> rfl

theorem rank_true_le (rule : Rule) (ready : Bool) : rule.rank true ≤ rule.rank ready := by
  cases ready with
  | true => exact Nat.le_refl _
  | false =>
    cases rule with
    | typ | typeName => exact Nat.le_refl _
    | _ => exact Nat.zero_le _

/-- Whether an opening token of a rule is ahead. -/
def isOpen (rule : Rule) (s : State) : Bool :=
  (rule.entry true).covers s.kinds

theorem Entered.by_isOpen {rule : Rule} {ready : Bool} {s : State} (entered : rule.Entered ready s) :
    rule.Entered (rule.isOpen s) s := by
  obtain ⟨guarded, covers⟩ := entered
  refine ⟨fun needed => ?_, ?_⟩
  · rw [guarded needed] at covers
    exact covers
  · cases isOpen : rule.isOpen s with
    | false => exact Outlook.covers_unknown _
    | true => exact isOpen

/-- The rank of a rule by what is ahead is not above the one by what is known. -/
theorem Entered.rank_le {rule : Rule} {ready : Bool} {s : State} (entered : rule.Entered ready s) :
    rule.rank (rule.isOpen s) ≤ rule.rank ready := by
  cases ready with
  | true =>
    have here : rule.isOpen s = true := entered.covers
    exact Nat.le_of_eq (congrArg rule.rank here)
  | false =>
    cases rule.isOpen s with
    | false => exact Nat.le_refl _
    | true => exact rule.rank_true_le false

/-- A rule is not followed again before a token is taken. -/
theorem Entered.remaining_lt {rule again : Rule} {ready : Bool} {s u : State}
    (entered : rule.Entered ready s) (tidy : s.Tidy) (begins : Begins rule.body s (.call again) u)
    (same : again.family = rule.family) :
    u.remaining < s.remaining := by
  have surveyed := entered.by_isOpen.surveyed tidy (Nat.le_refl _)
  obtain ⟨ready', entered', enough⟩ := (surveyed.begins begins).entered
  refine Nat.lt_of_le_of_ne begins.ahead.length_le fun length => ?_
  have ahead : u.ahead = s.ahead := begins.ahead.eq_of_length length
  have opens : again.isOpen u = rule.isOpen s := by
    rw [isOpen, isOpen, ← again.entry_family, ← rule.entry_family, same, State.kinds, State.kinds, ahead]
  have rank : again.rank (again.isOpen u) = rule.rank (rule.isOpen s) := by
    rw [opens, ← again.rank_family, ← rule.rank_family, same]
  have less := entered'.rank_le
  simp only [Affords, length] at enough
  omega

end Rule

/-! Questions -/

/-- Whether an action asks for the first `:=` only behind a short definition. -/
def Action.guardsRange : Action → Bool
  | .ask look => look.guardsRange
  | .seq first second => first.guardsRange && second.guardsRange
  | .branch question yes no => question.guardsRange && (yes.guardsRange && no.guardsRange)
  | .node _ inner | .marked inner | .wrap _ inner | .header _ inner | .moves inner | .loop inner =>
    inner.guardsRange
  | .answer _ | .bump | .fail _ | .call _ => true

theorem Rule.guardsRange_body (rule : Rule) : rule.body.guardsRange = true := by
  have listed : ∀ rule ∈ Rule.all, rule.body.guardsRange = true := by decide +kernel
  rcases rule.mem_all with member | ⟨n, rfl⟩
  · exact listed rule member
  · rw [body_binary]
    exact listed (.binary 6) (by decide)

theorem inherited_guardsRange : Inherited (·.guardsRange = true) where
  seq := Bool.and_eq_true_iff.mp
  branch whole := (Bool.and_eq_true_iff.mp whole).imp_right Bool.and_eq_true_iff.mp
  node := id
  marked := id
  wrap := id
  header := id
  moves := id
  loop := id
  body := Rule.guardsRange_body

theorem inherited_advances : Inherited (·.advances = true) where
  seq := Bool.and_eq_true_iff.mp
  branch whole := by
    obtain ⟨asked, no⟩ := Bool.and_eq_true_iff.mp whole
    obtain ⟨question, yes⟩ := Bool.and_eq_true_iff.mp asked
    exact ⟨question, yes, no⟩
  node := id
  marked := id
  wrap := id
  header := id
  moves := id
  loop whole := (Bool.and_eq_true_iff.mp whole).1
  body := Rule.advances_body

/-- An action that is begun in a state comes to an end. If it is a loop, each round that is not the last
takes a token. If it follows a rule, a token is taken before the rule is followed again. If it is a
question, the searches among the tokens ahead end. -/
structure Action.Terminates (a : Action) (s : State) : Prop where
  done : ∃ depth answer t, Does depth a s answer t
  loop : ∀ inner, a = .loop inner → ∀ depth t, Does depth inner s true t → t.remaining < s.remaining
  call : ∀ rule, a = .call rule → ∀ again u, Begins rule.body s (.call again) u →
    again.family = rule.family → u.remaining < s.remaining
  ask : ∀ look, a = .ask look → look.Settles s.view (look.holds s.view)

theorem Action.Terminates.of_surveyed {bound : Nat} {a : Action} {s : State} (surveyed : Surveyed bound a s)
    (advances : a.advances = true) (guarded : a.guardsRange = true) : a.Terminates s where
  done := ⟨bound, surveyed.exists_does advances⟩
  loop inner same depth t round := by
    subst same
    exact round.remaining_lt advances surveyed.tidy
  call rule same again u begins family := by
    subst same
    obtain ⟨ready, entered, _⟩ := surveyed.entered
    exact entered.remaining_lt surveyed.tidy begins family
  ask look same := by
    subst same
    exact Look.settles guarded s.view

end GoNav.Grammar

namespace GoNav.Parse

open Grammar

theorem surveyed_sourceFile (tokens : List Token) :
    ∃ bound, Surveyed bound (.call .sourceFile) (.ofTokens tokens) :=
  ⟨_, Cursor.Tidy.ofTokens tokens, .unknown, 3, _, Nat.le_refl _, Outlook.covers_unknown _, rfl⟩

/-- The parse of any sequence of tokens ends, and so does whatever is begun on the way. -/
theorem terminates (tokens : List Token) :
    (∃ depth answer t, Does depth (.call .sourceFile) (.ofTokens tokens) answer t ∧
      ofTokens tokens = ⟨.node .sourceFile t.flush.built, t.errors⟩) ∧
    ∀ action s, Begins (.call .sourceFile) (.ofTokens tokens) action s → action.Terminates s := by
  constructor
  · obtain ⟨depth, answer, done⟩ := does_finalState tokens
    exact ⟨depth, answer, _, done, rfl⟩
  · intro action s begins
    obtain ⟨bound, surveyed⟩ := surveyed_sourceFile tokens
    exact .of_surveyed (surveyed.begins begins) (inherited_advances.begins begins rfl)
      (inherited_guardsRange.begins begins rfl)

/-- A file that ends behind the parenthesis of its imports. -/
def unclosedImport : List Token :=
  [⟨.importKw, "import", 0⟩, ⟨.leftParen, "(", 7⟩]

theorem terminates_unclosedImport :
    let specifications := Action.repeatWhile (.not (.or (.current .rightParen) .atEnd))
      (.seq (.progress (.call .importSpec) .specification) .endStatement)
    let s := ((State.ofTokens unclosedImport).report .packageClause).inside.bump.bump
    Begins (.call .sourceFile) (.ofTokens unclosedImport) specifications s ∧ s.remaining = 0 ∧
      specifications.Terminates s := by
  intro specifications s
  have begins : Begins (.call .sourceFile) (.ofTokens unclosedImport) specifications s := by
    refine .call (.second (.no (n := 0) (.ask _ _) (.fail _ _)) ?_)
    refine .first (.round (.yes (n := 0) (.ask _ _) ?_))
    refine .first (.first (.call (.node _ ?_)))
    refine .second (n := 0) (.bump _) (.yes (n := 0) (.yes (.ask _ _) (.bump _)) ?_)
    exact .first (.self _ _)
  exact ⟨begins, rfl, (terminates unclosedImport).2 _ _ begins⟩

end GoNav.Parse
