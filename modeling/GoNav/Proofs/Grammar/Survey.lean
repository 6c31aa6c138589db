import GoNav.Proofs.Grammar.Outlook
import Mathlib.Data.List.Basic

namespace GoNav.Grammar

/-- The kinds at which a rule takes a token before it does anything else. -/
def Rule.opening : Rule → List Kind
  | .packageClause => [.packageKw]
  | .importDecl => [.importKw]
  | .typeDecl => [.typeKw]
  | .varDecl => [.varKw]
  | .constDecl => [.constKw]
  | .functionDecl => [.funcKw]
  | .receiver | .argumentList => [.leftParen]
  | .typeParameters => [.leftBracket]
  | .structType => [.structKw]
  | .interfaceType => [.interfaceKw]
  | .ifStatement => [.ifKw]
  | .forStatement => [.forKw]
  | .switchStatement => [.switchKw]
  | .selectStatement => [.selectKw]
  | .caseClause | .commClause => [.caseKw, .defaultKw]
  | .block | .literalValue => [.leftBrace]
  | .typ =>
    [.ident, .star, .leftBracket, .mapKw, .chanKw, .funcKw, .structKw, .interfaceKw, .leftParen, .arrow]
  | .typeName | .typeReference => [.ident]
  | _ => []

/-- Whether a rule is followed only where one of its opening tokens is ahead, which it takes without a
look at it. -/
def Rule.isGuarded : Rule → Bool
  | .block | .literalValue | .typ | .typeName | .typeReference => false
  | rule => !rule.opening.isEmpty

/-- What is known where a rule is begun: that an opening token is ahead, or nothing. -/
def Rule.entry (rule : Rule) (ready : Bool) : Outlook :=
  if ready then ⟨[some rule.opening], none⟩ else .unknown

/-- Whether an opening token of a rule is known to be ahead. -/
def Rule.isReady (rule : Rule) (o : Outlook) : Bool :=
  o.first.any (Outlook.within · (some rule.opening))

/-- What is kept account of along the ways through an action, and how it changes. There is no result
where a way must not be gone. -/
structure Account (ε : Type) where
  /-- Whether ways that report an error are of interest too. -/
  lenient : Bool
  bump : Option Place → ε → Option ε
  /-- The inside of a node or of a mark is begun, and ended. -/
  opened : Option Kind → ε → ε
  closed : Option Kind → ε → ε → Option ε
  wrapped : Kind → ε → Option ε
  /-- An action has taken a token. -/
  moved : ε → ε
  /-- What is true of either. -/
  join : ε → ε → Option ε
  /-- A rule is begun, with an opening token known to be ahead or not, may end so, and has this effect
  where it is followed. -/
  start : Rule → Bool → ε
  ends : Rule → Bool → ε → Bool
  called : Rule → Bool → ε → Option ε

/-- The end of a way through an action. -/
structure Way (ε : Type) where
  answer : Bool
  outlook : Outlook
  account : ε
  deriving DecidableEq, Repr

section

variable {ε : Type} [DecidableEq ε]

/-- Goes on from each of several ways. -/
def Way.each (next : Way ε → Option (List (Way ε))) : List (Way ε) → Option (List (Way ε))
  | [] => some []
  | way :: rest =>
    match next way, each next rest with
    | some now, some later => some (now ∪ later)
    | _, _ => none

/-- The ways out of a loop: what is known and kept account of where it goes round is weakened until it
is the same each time. -/
def Account.settle (acc : Account ε) (body : Outlook → ε → Option (List (Way ε))) :
    Nat → Outlook → ε → Option (List (Way ε))
  | 0, _, _ => none
  | n + 1, o, e =>
    (body o e).bind fun ways =>
      let again := ways.filter (·.answer)
      if again.all fun way => (o == .unknown || way.outlook == o) && acc.join e way.account == some e then
        some (ways.filter (!·.answer))
      else (again.foldlM (fun e way => acc.join e way.account) e).bind (acc.settle body n .unknown)

/-- The ways through an action. -/
def Action.survey (acc : Account ε) : Action → Outlook → ε → Option (List (Way ε))
  | .answer value, o, e => some [⟨value, o, e⟩]
  | .ask look, o, e =>
    some ((look.learn true o).map (⟨true, ·, e⟩) ∪ (look.learn false o).map (⟨false, ·, e⟩))
  | .seq first second, o, e =>
    (first.survey acc o e).bind (Way.each fun way => second.survey acc way.outlook way.account)
  | .branch question yes no, o, e =>
    (question.survey acc o e).bind (Way.each fun way =>
      if way.answer then yes.survey acc way.outlook way.account
      else no.survey acc way.outlook way.account)
  | .bump, o, e => (acc.bump o.first e).map fun e => o.bump.map (⟨true, ·, e⟩)
  | .node kind inner, o, e =>
    (inner.survey acc o (acc.opened (some kind) e)).bind (Way.each fun way =>
      (acc.closed (some kind) e way.account).map fun e => [{ way with account := e }])
  | .marked inner, o, e =>
    (inner.survey acc o (acc.opened none e)).bind (Way.each fun way =>
      (acc.closed none e way.account).map fun e => [{ way with account := e }])
  | .wrap kind inner, o, e =>
    (inner.survey acc o e).bind (Way.each fun way =>
      (acc.wrapped kind way.account).map fun e => [{ way with account := e }])
  | .fail _, o, e => some (if acc.lenient then [⟨false, o, e⟩] else [])
  | .header _ inner, o, e => inner.survey acc o e
  | .moves inner, o, e =>
    (inner.survey acc o e).bind (Way.each fun way =>
      some [⟨true, way.outlook, acc.moved way.account⟩, ⟨false, o, way.account⟩])
  | .loop inner, o, e => acc.settle (inner.survey acc) 4 o e
  | .call rule, o, e =>
    if rule.isGuarded && !rule.isReady o then none
    else (acc.called rule (rule.isReady o) e).map fun e => [⟨true, .unknown, e⟩, ⟨false, .unknown, e⟩]

/-- Whether all ways through a rule end as they may. -/
def Account.passesFrom (acc : Account ε) (rule : Rule) (ready : Bool) : Bool :=
  (rule.body.survey acc (rule.entry ready) (acc.start rule ready)).any
    (·.all fun way => acc.ends rule ready way.account)

def Account.passes (acc : Account ε) (rule : Rule) : Bool :=
  (rule.isGuarded || acc.passesFrom rule false) && (rule.opening.isEmpty || acc.passesFrom rule true)

end

/-- All rules. The rules for binary expressions above the precedences of all operators are the same, and
only the first of them is listed. -/
def Rule.all : List Rule :=
  [.sourceFile, .packageClause, .importDecl, .importSpec, .topLevelDecl, .typeDecl, .typeSpec, .varDecl,
   .varSpec, .constDecl, .constSpec, .functionDecl, .receiver, .typeParameters, .bracketRest, .signature,
   .parameters, .paramDecl true, .paramDecl false, .typ, .typeName, .typeReference, .structType,
   .fieldDecl, .interfaceType, .interfaceElement, .block, .statementList, .statement, .simpleStatement,
   .headerPart, .shortVarDecl, .ifStatement, .forStatement, .forHeader, .switchStatement,
   .selectStatement, .caseClause, .commClause, .expressionList, .expression, .binary 0, .binary 1,
   .binary 2, .binary 3, .binary 4, .binary 5, .binary 6, .unary, .primary, .operand, .argumentList,
   .literalValue, .element, .elementValue]

theorem Rule.mem_all (rule : Rule) : rule ∈ all ∨ ∃ n, rule = .binary (n + 7) := by
  cases rule with
  | binary least =>
    by_cases low : least < 7
    · left
      simp only [all, List.mem_cons, reduceCtorEq, Rule.binary.injEq, false_or]
      omega
    · exact Or.inr ⟨least - 7, by rw [Nat.sub_add_cancel (by omega)]⟩
  | paramDecl named => cases named <;> exact Or.inl (by decide)
  | _ => exact Or.inl (by decide)

theorem Rule.body_binary (n : Nat) : (Rule.binary (n + 7)).body = (Rule.binary 6).body :=
  rfl

/-- The kinds of the significant tokens ahead. -/
def State.kinds (s : State) : List Kind :=
  s.ahead.map Lexeme.kind

/-- What an account says of a state is true, step by step. The account may be kept relative to
something, such as a former state. -/
structure Account.Sound {ε γ : Type} (acc : Account ε) (Holds : γ → ε → State → Prop) : Prop where
  bump {base : γ} {e e' : ε} {s : State} {first : Option Place} (tidy : s.Tidy) (held : Holds base e s)
    (known : ∀ place ∈ first, ∃ l rest, s.ahead = l :: rest ∧ place.admits l.kind = true)
    (next : acc.bump first e = some e') : Holds base e' s.bump
  inside {base : γ} {e : ε} {s : State} (kind : Option Kind) (tidy : s.Tidy) (held : Holds base e s) :
    ∃ inner : γ, Holds inner (acc.opened kind e) s.inside ∧
      ∀ {e' e'' : ε} {t : State}, t.remaining ≤ s.remaining → Holds inner e' t →
        acc.closed kind e e' = some e'' → Holds base e'' (s.resume kind t)
  wrap {base : γ} {e e' : ε} {s : State} {kind : Kind} (held : Holds base e s)
    (next : acc.wrapped kind e = some e') : Holds base e' { s with built := [.node kind s.built] }
  report {base : γ} {e : ε} {s : State} (cause : SyntaxError.Cause) (lenient : acc.lenient = true)
    (held : Holds base e s) : Holds base e (s.report cause)
  header {base : γ} {e : ε} {s : State} (within : Bool) (held : Holds base e s) :
    Holds base e { s with inHeader := within }
  moved {base : γ} {e e' : ε} {s t : State} (before : Holds base e s) (held : Holds base e' t)
    (taken : t.remaining < s.remaining) : Holds base (acc.moved e') t
  join {base : γ} {e e' e'' : ε} {s : State} (joined : acc.join e e' = some e'')
    (held : Holds base e s ∨ Holds base e' s) : Holds base e'' s
  called {base : γ} {e e' : ε} {s : State} {rule : Rule} {ready : Bool} (held : Holds base e s)
    (next : acc.called rule ready e = some e') :
    ∃ inner : γ, Holds inner (acc.start rule ready) s ∧
      ∀ {last : ε} {t : State}, t.remaining ≤ s.remaining → Holds inner last t →
        acc.ends rule ready last = true → Holds base e' t

section

variable {ε γ : Type} [DecidableEq ε] {acc : Account ε} {Holds : γ → ε → State → Prop}

theorem Way.exists_each {next : Way ε → Option (List (Way ε))} {ways ends : List (Way ε)}
    (all : Way.each next ways = some ends) {way : Way ε} (member : way ∈ ways) :
    ∃ now, next way = some now ∧ ∀ final ∈ now, final ∈ ends := by
  induction ways generalizing ends with
  | nil => cases member
  | cons first rest ih =>
    unfold Way.each at all
    split at all
    · rename_i now later here further
      cases all
      rcases List.mem_cons.mp member with rfl | behind
      · exact ⟨now, here, fun final among => List.mem_union_iff.mpr (Or.inl among)⟩
      · obtain ⟨own, found, inside⟩ := ih further behind
        exact ⟨own, found, fun final among => List.mem_union_iff.mpr (Or.inr (inside final among))⟩
    · cases all

omit [DecidableEq ε] in
theorem Account.Sound.foldlM (sound : acc.Sound Holds) {ways : List (Way ε)} {base : γ} {e weaker : ε}
    {s : State} (joined : ways.foldlM (fun e way => acc.join e way.account) e = some weaker)
    (held : Holds base e s) : Holds base weaker s := by
  induction ways generalizing e with
  | nil =>
    cases joined
    exact held
  | cons way rest ih =>
    rw [List.foldlM_cons] at joined
    obtain ⟨next, first, joined⟩ := Option.bind_eq_some_iff.mp joined
    exact ih joined (sound.join first (Or.inl held))

/-- What is known and kept account of each time a loop goes round. -/
theorem Account.Sound.exists_settled (sound : acc.Sound Holds) {body : Outlook → ε → Option (List (Way ε))}
    {n : Nat} {o : Outlook} {e : ε} {ends : List (Way ε)} (settled : acc.settle body n o e = some ends) :
    ∃ o' e', (∀ kinds, o.covers kinds = true → o'.covers kinds = true) ∧
      (∀ base s, Holds base e s → Holds base e' s) ∧
      ∃ ways, body o' e' = some ways ∧ ends = ways.filter (!·.answer) ∧
        (∀ m, acc.settle body (m + 1) o' e' = some ends) ∧
        ∀ way ∈ ways, way.answer = true → (∀ kinds, way.outlook.covers kinds = true → o'.covers kinds = true) ∧
          acc.join e' way.account = some e' := by
  induction n generalizing o e with
  | zero => cases settled
  | succ n ih =>
    have same := settled
    rw [Account.settle] at settled
    obtain ⟨ways, found, settled⟩ := Option.bind_eq_some_iff.mp settled
    simp only at settled
    split at settled
    · rename_i stable
      cases settled
      refine ⟨o, e, fun _ covered => covered, fun _ _ held => held, ways, found, rfl, ?_, ?_⟩
      · intro m
        rw [Account.settle, found, Option.bind_some, if_pos stable]
      · intro way member again
        have kept := List.all_eq_true.mp stable way (List.mem_filter.mpr ⟨member, again⟩)
        simp only [Bool.and_eq_true, Bool.or_eq_true, beq_iff_eq] at kept
        refine ⟨fun kinds covered => ?_, kept.2⟩
        rcases kept.1 with rfl | rfl
        · exact Outlook.covers_unknown kinds
        · exact covered
    · obtain ⟨weaker, joined, later⟩ := Option.bind_eq_some_iff.mp settled
      obtain ⟨o', e', covers, holds, rest⟩ := ih later
      exact ⟨o', e', fun kinds _ => covers kinds (Outlook.covers_unknown kinds),
        fun base s held => holds base s (sound.foldlM joined held), rest⟩

/-- A rule is begun where it may be: at an opening token if it needs one, or if one is said to be
ahead. -/
structure Rule.Entered (rule : Rule) (ready : Bool) (s : State) : Prop where
  guarded : rule.isGuarded = true → ready = true
  covers : (rule.entry ready).covers s.kinds = true

theorem Rule.entered {rule : Rule} {o : Outlook} {s : State} (covered : o.covers s.kinds = true)
    (allowed : ¬ (rule.isGuarded && !rule.isReady o) = true) : rule.Entered (rule.isReady o) s := by
  rw [Bool.and_eq_true, not_and, Bool.not_eq_true', Bool.not_eq_false] at allowed
  refine ⟨allowed, ?_⟩
  cases ready : rule.isReady o with
  | false => exact Outlook.covers_unknown _
  | true =>
    obtain ⟨place, first, inside⟩ := (Option.any_eq_true _ _).mp ready
    obtain ⟨kind, rest, split, admitted⟩ := Outlook.exists_of_first covered first
    rw [split]
    exact Bool.and_eq_true_iff.mpr ⟨Outlook.admits_of_within inside admitted, rfl⟩

theorem Rule.Entered.exists_survey {rule : Rule} {ready : Bool} {s : State} (entered : rule.Entered ready s)
    (passed : acc.passes rule = true) :
    ∃ ways, rule.body.survey acc (rule.entry ready) (acc.start rule ready) = some ways ∧
      ∀ way ∈ ways, acc.ends rule ready way.account = true := by
  have whole : acc.passesFrom rule ready = true := by
    rw [Account.passes, Bool.and_eq_true, Bool.or_eq_true, Bool.or_eq_true] at passed
    cases ready with
    | false => exact passed.1.resolve_left fun guarded => Bool.false_ne_true (entered.guarded guarded)
    | true =>
      refine passed.2.resolve_left fun none => ?_
      have covers := entered.covers
      simp only [Rule.entry, if_true, List.isEmpty_iff.mp none] at covers
      cases kinds : s.kinds <;> rw [kinds] at covers <;> cases covers
  obtain ⟨ways, found, all⟩ := (Option.any_eq_true _ _).mp whole
  exact ⟨ways, found, List.all_eq_true.mp all⟩

/-- It is enough to survey the rules of the list. -/
theorem Account.passes_all (each : ∀ rule ∈ Rule.all, acc.passes rule = true)
    (same : ∀ n, acc.start (.binary (n + 7)) = acc.start (.binary 6) ∧
      acc.ends (.binary (n + 7)) = acc.ends (.binary 6))
    (rule : Rule) : acc.passes rule = true := by
  rcases rule.mem_all with listed | ⟨n, rfl⟩
  · exact each rule listed
  · have last := each (.binary 6) (by decide)
    obtain ⟨start, ends⟩ := same n
    rw [Account.passes, Account.passesFrom, Account.passesFrom, Rule.body_binary, start, ends]
    exact last

/-- Whatever an action does, one of the ways that are surveyed is gone. -/
theorem Does.exists_way (sound : acc.Sound Holds) (rules : ∀ rule, acc.passes rule = true)
    {n : Nat} {a : Action} {s t : State} {b : Bool} (done : Does n a s b t) (tidy : s.Tidy)
    (quiet : acc.lenient = true ∨ t.errors = []) {base : γ} {o : Outlook} {e : ε} {ways : List (Way ε)}
    (held : Holds base e s) (covered : o.covers s.kinds = true) (surveyed : a.survey acc o e = some ways) :
    ∃ way ∈ ways, way.answer = b ∧ way.outlook.covers t.kinds = true ∧ Holds base way.account t := by
  induction done generalizing base o e ways with
  | answer value s =>
    cases surveyed
    exact ⟨_, List.mem_singleton.mpr rfl, rfl, covered, held⟩
  | ask look s =>
    cases surveyed
    obtain ⟨known, member, covers⟩ := look.exists_learn (v := s.view) covered
    refine ⟨⟨look.holds s.view, known, e⟩, List.mem_union_iff.mpr ?_, rfl, covers, held⟩
    cases answer : look.holds s.view <;> rw [answer] at member
    · exact Or.inr (List.mem_map_of_mem member)
    · exact Or.inl (List.mem_map_of_mem member)
  | seq first second ihFirst ihSecond =>
    obtain ⟨middle, found, surveyed⟩ := Option.bind_eq_some_iff.mp surveyed
    obtain ⟨way, member, _, covered, held⟩ :=
      ihFirst tidy (quiet.imp_right second.errors_eq_nil) held covered found
    obtain ⟨now, further, inside⟩ := Way.exists_each surveyed member
    obtain ⟨last, among, rest⟩ := ihSecond (tidy_stable.does first tidy) quiet held covered further
    exact ⟨last, inside last among, rest⟩
  | yes asked way ihAsked ihWay =>
    obtain ⟨middle, found, surveyed⟩ := Option.bind_eq_some_iff.mp surveyed
    obtain ⟨taken, member, answer, covered, held⟩ :=
      ihAsked tidy (quiet.imp_right way.errors_eq_nil) held covered found
    obtain ⟨now, further, inside⟩ := Way.exists_each surveyed member
    rw [if_pos answer] at further
    obtain ⟨last, among, rest⟩ := ihWay (tidy_stable.does asked tidy) quiet held covered further
    exact ⟨last, inside last among, rest⟩
  | no asked way ihAsked ihWay =>
    obtain ⟨middle, found, surveyed⟩ := Option.bind_eq_some_iff.mp surveyed
    obtain ⟨taken, member, answer, covered, held⟩ :=
      ihAsked tidy (quiet.imp_right way.errors_eq_nil) held covered found
    obtain ⟨now, further, inside⟩ := Way.exists_each surveyed member
    rw [if_neg (by rw [answer]; exact Bool.false_ne_true)] at further
    obtain ⟨last, among, rest⟩ := ihWay (tidy_stable.does asked tidy) quiet held covered further
    exact ⟨last, inside last among, rest⟩
  | bump s =>
    obtain ⟨next, counted, rfl⟩ := Option.map_eq_some_iff.mp surveyed
    obtain ⟨known, member, covers⟩ := Outlook.exists_bump covered
    refine ⟨⟨true, known, next⟩, List.mem_map_of_mem member, rfl, ?_, ?_⟩
    · rwa [State.kinds, s.bump_ahead, List.map_tail]
    · refine sound.bump tidy held (fun place first => ?_) counted
      obtain ⟨kind, rest, split, admitted⟩ := Outlook.exists_of_first covered first
      obtain ⟨l, behind, ahead, rfl, _⟩ := List.map_eq_cons_iff.mp split
      exact ⟨l, behind, ahead, admitted⟩
  | @node _ inner s t b kind done ih =>
    obtain ⟨middle, found, surveyed⟩ := Option.bind_eq_some_iff.mp surveyed
    obtain ⟨base', begun, ended⟩ := sound.inside (some kind) tidy held
    obtain ⟨way, member, answer, covered, held⟩ := ih tidy.skip quiet begun covered found
    obtain ⟨now, further, inside⟩ := Way.exists_each surveyed member
    obtain ⟨e', closed, rfl⟩ := Option.map_eq_some_iff.mp further
    exact ⟨_, inside _ (List.mem_singleton.mpr rfl), answer, covered, ended done.remaining_le held closed⟩
  | @marked _ inner s t b done ih =>
    obtain ⟨middle, found, surveyed⟩ := Option.bind_eq_some_iff.mp surveyed
    obtain ⟨base', begun, ended⟩ := sound.inside none tidy held
    obtain ⟨way, member, answer, covered, held⟩ := ih tidy.skip quiet begun covered found
    obtain ⟨now, further, inside⟩ := Way.exists_each surveyed member
    obtain ⟨e', closed, rfl⟩ := Option.map_eq_some_iff.mp further
    exact ⟨_, inside _ (List.mem_singleton.mpr rfl), answer, covered, ended done.remaining_le held closed⟩
  | wrap kind inner ih =>
    obtain ⟨middle, found, surveyed⟩ := Option.bind_eq_some_iff.mp surveyed
    obtain ⟨way, member, answer, covered, held⟩ := ih tidy quiet held covered found
    obtain ⟨now, further, inside⟩ := Way.exists_each surveyed member
    obtain ⟨e', wrapped, rfl⟩ := Option.map_eq_some_iff.mp further
    exact ⟨_, inside _ (List.mem_singleton.mpr rfl), answer, covered, sound.wrap held wrapped⟩
  | fail cause s =>
    have lenient : acc.lenient = true := by
      refine quiet.resolve_right fun none => ?_
      simp [State.report, Cursor.report] at none
    cases surveyed
    rw [if_pos lenient]
    exact ⟨_, List.mem_singleton.mpr rfl, rfl, covered, sound.report cause lenient held⟩
  | header within inner ih =>
    obtain ⟨way, member, answer, covered, held⟩ :=
      ih (tidy.inHeader within) quiet (sound.header within held) covered surveyed
    exact ⟨way, member, answer, covered, sound.header _ held⟩
  | @moves _ inner s t b done ih =>
    obtain ⟨middle, found, surveyed⟩ := Option.bind_eq_some_iff.mp surveyed
    obtain ⟨way, member, _, covers, holds⟩ := ih tidy quiet held covered found
    obtain ⟨now, further, inside⟩ := Way.exists_each surveyed member
    cases further
    by_cases same : t.ahead.length = s.ahead.length
    · refine ⟨⟨false, o, way.account⟩, inside _ (by simp), by simp [same], ?_, holds⟩
      rwa [State.kinds, done.ahead_eq same]
    · refine ⟨⟨true, way.outlook, acc.moved way.account⟩, inside _ (by simp), ?_, covers,
        sound.moved held holds (Nat.lt_of_le_of_ne done.remaining_le same)⟩
      exact (bne_iff_ne.mpr same).symm
  | again first rest ihFirst ihRest =>
    obtain ⟨o', e', covers, holds, middle, found, _, settled, stable⟩ := sound.exists_settled surveyed
    obtain ⟨way, member, answer, covered, held⟩ :=
      ihFirst tidy (quiet.imp_right rest.errors_eq_nil) (holds _ _ held) (covers _ covered) found
    obtain ⟨known, joined⟩ := stable way member answer
    exact ihRest (tidy_stable.does first tidy) quiet (sound.join joined (Or.inr held)) (known _ covered)
      (settled 3)
  | stop last ih =>
    obtain ⟨o', e', covers, holds, middle, found, rfl, _⟩ := sound.exists_settled surveyed
    obtain ⟨way, member, answer, rest⟩ := ih tidy quiet (holds _ _ held) (covers _ covered) found
    exact ⟨way, List.mem_filter.mpr ⟨member, by rw [answer]; rfl⟩, answer, rest⟩
  | @call _ rule s t b done ih =>
    rw [Action.survey] at surveyed
    split at surveyed
    · cases surveyed
    · rename_i allowed
      have entered := Rule.entered covered allowed
      obtain ⟨next, called, rfl⟩ := Option.map_eq_some_iff.mp surveyed
      obtain ⟨body, found, ends⟩ := entered.exists_survey (rules rule)
      obtain ⟨base', begun, ended⟩ := sound.called held called
      obtain ⟨way, member, _, _, held⟩ := ih tidy quiet begun entered.covers found
      refine ⟨⟨b, .unknown, next⟩, by cases b <;> simp, rfl, Outlook.covers_unknown _,
        ended done.remaining_le held (ends way member)⟩

/-- A rule that may be begun anywhere ends as it may. -/
theorem Does.exists_ends (sound : acc.Sound Holds) (rules : ∀ rule, acc.passes rule = true)
    {n : Nat} {rule : Rule} {s t : State} {b : Bool} (done : Does n (.call rule) s b t)
    (free : rule.isGuarded = false) (tidy : s.Tidy) (quiet : acc.lenient = true ∨ t.errors = []) {base : γ}
    (begun : Holds base (acc.start rule false) s) : ∃ e, acc.ends rule false e = true ∧ Holds base e t := by
  have entered : rule.Entered false s :=
    ⟨fun guarded => absurd guarded (Bool.eq_false_iff.mp free), Outlook.covers_unknown _⟩
  obtain ⟨ways, surveyed, ends⟩ := entered.exists_survey (rules rule)
  cases done with
  | call body =>
    obtain ⟨way, member, _, _, held⟩ :=
      body.exists_way sound rules tidy quiet begun entered.covers surveyed
    exact ⟨way.account, ends way member, held⟩

end

end GoNav.Grammar
