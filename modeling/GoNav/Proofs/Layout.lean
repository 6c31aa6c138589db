import GoNav.Proofs.Grammar.Depth

namespace GoNav

/-- What is left of a syntax tree without its blanks and comments and without the texts of its tokens. -/
inductive Outline where
  | token (kind : Kind)
  | node (kind : Kind) (children : List Outline)
  deriving Repr

mutual

/-- The outline of a tree. A blank or comment by itself has none. -/
def Tree.outline : Tree → List Outline
  | .token kind _ => if kind.isTrivia then [] else [.token kind]
  | .node kind children => [.node kind (Tree.outlineOf children)]

def Tree.outlineOf : List Tree → List Outline
  | [] => []
  | t :: rest => t.outline ++ Tree.outlineOf rest

end

theorem Tree.outlineOf_append (left right : List Tree) :
    Tree.outlineOf (left ++ right) = Tree.outlineOf left ++ Tree.outlineOf right := by
  induction left with
  | nil => rfl
  | cons t rest ih => simp only [List.cons_append, Tree.outlineOf, ih, List.append_assoc]

namespace Token

/-- The tokens other than blanks and comments. -/
def significant (tokens : List Token) : List Token :=
  tokens.filter (!·.kind.isTrivia)

/-- The byte offset of the end of a file. -/
def endOf (tokens : List Token) : Nat :=
  (tokens.getLast?.map Token.stop).getD 0

/-- The bytes of the `k`-th significant token of a file; behind the last one the end of the file. -/
def place (tokens : List Token) (k : Nat) : Nat × Nat :=
  ((significant tokens)[k]?.map fun t => (t.start, t.stop)).getD (endOf tokens, endOf tokens)

/-- Two files have significant tokens of the same kinds, and line breaks between the same two of them and
before the end of the file or not. -/
structure SameLayout (a b : List Token) : Prop where
  kinds : (significant a).map Token.kind = (significant b).map Token.kind
  between : (Grammar.Input.ofTokens a).lexemes.tail.map Grammar.Lexeme.afterNewline =
    (Grammar.Input.ofTokens b).lexemes.tail.map Grammar.Lexeme.afterNewline
  atEnd : (Grammar.Input.ofTokens a).trailing.any Token.hasNewline =
    (Grammar.Input.ofTokens b).trailing.any Token.hasNewline

end Token

/-- An error with a cause at the `k`-th significant token of a file. -/
def SyntaxError.atToken (tokens : List Token) (mark : SyntaxError.Cause × Nat) : SyntaxError :=
  ⟨mark.1, (Token.place tokens mark.2).1, (Token.place tokens mark.2).2⟩

namespace Grammar

theorem Input.map_token_ofTokens (tokens : List Token) :
    (Input.ofTokens tokens).lexemes.map Lexeme.token = Token.significant tokens := by
  have grouped : ∀ lead, (Input.group lead tokens).lexemes.map Lexeme.token = Token.significant tokens := by
    induction tokens with
    | nil => intro lead; rfl
    | cons t rest ih =>
      intro lead
      unfold Input.group
      by_cases trivia : t.kind.isTrivia = true
      · simpa [trivia, Token.significant] using ih (lead ++ [t])
      · simpa [trivia, Token.significant] using ih []
  exact grouped []

/-! Where a parse stands -/

/-- A parse of a file stands before its `k`-th significant token. -/
structure Cursor.StandsAt (tokens : List Token) (k : Nat) (c : Cursor) : Prop where
  tidy : c.Tidy
  ahead : c.ahead = (Input.ofTokens tokens).lexemes.drop k
  trailing : c.trailing = (Input.ofTokens tokens).trailing
  stop : c.stop = Token.endOf tokens
  fresh : k = 0 → c.before = none

namespace Cursor.StandsAt

variable {tokens : List Token} {k : Nat} {c : Cursor}

theorem ofTokens (tokens : List Token) : (Cursor.ofTokens tokens).StandsAt tokens 0 :=
  ⟨.ofTokens tokens, rfl, rfl, rfl, fun _ => rfl⟩

theorem skip (stands : c.StandsAt tokens k) : c.skip.StandsAt tokens k :=
  ⟨stands.tidy.skip, stands.ahead, stands.trailing, stands.stop, stands.fresh⟩

theorem inHeader (stands : c.StandsAt tokens k) (within : Bool) :
    Cursor.StandsAt tokens k { c with inHeader := within } :=
  ⟨stands.tidy.inHeader within, stands.ahead, stands.trailing, stands.stop, stands.fresh⟩

theorem advance (stands : c.StandsAt tokens k) : c.advance.StandsAt tokens (k + 1) := by
  have tail : c.ahead.tail = (Input.ofTokens tokens).lexemes.drop (k + 1) := by
    rw [stands.ahead, List.tail_drop]
  refine ⟨stands.tidy.advance, ?_, ?_, ?_, nofun⟩ <;> unfold Cursor.advance <;> split
  · rename_i none
    rw [← tail, none]
    exact none
  · rename_i l rest ahead
    rw [← tail, ahead]
    rfl
  · exact stands.trailing
  · exact stands.trailing
  · exact stands.stop
  · exact stands.stop

theorem report (stands : c.StandsAt tokens k) (cause : SyntaxError.Cause) :
    (c.report cause).StandsAt tokens k :=
  ⟨⟨stands.tidy.pending, stands.tidy.lead, stands.tidy.token, stands.tidy.trailing⟩, stands.ahead,
    stands.trailing, stands.stop, stands.fresh⟩

theorem errors_report (stands : c.StandsAt tokens k) (cause : SyntaxError.Cause) :
    (c.report cause).errors = c.errors ++ [SyntaxError.atToken tokens (cause, k)] := by
  have next : c.ahead.head?.map Lexeme.token = (Token.significant tokens)[k]? := by
    rw [stands.ahead, List.head?_drop, ← List.getElem?_map, Input.map_token_ofTokens]
  have place : (c.ahead.head?.map fun l => (l.token.start, l.token.stop)).getD (c.stop, c.stop) =
      Token.place tokens k := by
    rw [Token.place, ← next, Option.map_map, stands.stop]
    rfl
  simp only [Cursor.report, place, SyntaxError.atToken]

end Cursor.StandsAt

/-! What questions see -/

/-- Whether the answer to a question may hang on what stands right before the next token, other than
whether a statement ends there. -/
def Look.looksBack : Look → Bool
  | .newlineBefore 0 => true
  | .not look => look.looksBack
  | .and left right | .or left right => left.looksBack || right.looksBack
  | _ => false

/-- Whether an action surely goes on behind a token, or stands at the end of the file. -/
def Action.passes : Action → Bool
  | .bump => true
  | .seq first second => first.passes || second.passes
  | .branch question yes no => question.passes || yes.passes && no.passes
  | .node _ inner | .marked inner | .wrap _ inner | .header _ inner | .moves inner => inner.passes
  | .answer _ | .ask _ | .fail _ | .loop _ | .call _ => false

/-- Whether an action asks about what stands right before the next token only behind another token. It
may be done behind one itself. -/
def Action.looksBackBehind : Action → Bool → Bool
  | .ask look, behind => behind || !look.looksBack
  | .seq first second, behind =>
    first.looksBackBehind behind && second.looksBackBehind (behind || first.passes)
  | .branch question yes no, behind =>
    question.looksBackBehind behind && yes.looksBackBehind (behind || question.passes) &&
      no.looksBackBehind (behind || question.passes)
  | .node _ inner, behind | .marked inner, behind | .wrap _ inner, behind | .header _ inner, behind
  | .moves inner, behind | .loop inner, behind => inner.looksBackBehind behind
  | .answer _, _ | .bump, _ | .fail _, _ | .call _, _ => true

theorem Rule.looksBackBehind_body (rule : Rule) : rule.body.looksBackBehind false = true := by
  have listed : ∀ rule ∈ Rule.all, rule.body.looksBackBehind false = true := by decide +kernel
  rcases rule.mem_all with member | ⟨n, rfl⟩
  · exact listed rule member
  · rw [body_binary]
    exact listed (.binary 6) (by decide)

/-- Two parses, of files with the same layout, that stand before the same token and have the same behind
them. -/
structure InStep (a b : List Token) (k : Nat) (s t : State) : Prop where
  left : s.StandsAt a k
  right : t.StandsAt b k
  before : s.before = t.before
  inHeader : s.inHeader = t.inHeader
  errors : ∃ marks : List (SyntaxError.Cause × Nat), s.errors = marks.map (SyntaxError.atToken a) ∧
    t.errors = marks.map (SyntaxError.atToken b)
  built : Tree.outlineOf s.built = Tree.outlineOf t.built

section

variable {a b : List Token} {k : Nat} {s t : State}

theorem InStep.map_kind (same : Token.SameLayout a b) (step : InStep a b k s t) :
    s.ahead.map Lexeme.kind = t.ahead.map Lexeme.kind := by
  have kinds : ∀ tokens, (Input.ofTokens tokens).lexemes.map Lexeme.kind =
      (Token.significant tokens).map Token.kind := fun tokens => by
    rw [← Input.map_token_ofTokens, List.map_map]
    rfl
  rw [step.left.ahead, step.right.ahead, List.map_drop, List.map_drop, kinds, kinds, same.kinds]

theorem InStep.length_ahead (same : Token.SameLayout a b) (step : InStep a b k s t) :
    s.ahead.length = t.ahead.length := by
  have lengths := congrArg List.length (step.map_kind same)
  rwa [List.length_map, List.length_map] at lengths

/-- Line breaks are seen alike, unless it is before the first token of the file. -/
theorem InStep.newlineAt (same : Token.SameLayout a b) (step : InStep a b k s t) {n : Nat}
    (behind : 0 < k + n) :
    s.view.newlineAt n = t.view.newlineAt n := by
  have gap : ∀ lexemes : List Lexeme, (lexemes.drop k)[n]?.map Lexeme.afterNewline =
      (lexemes.tail.map Lexeme.afterNewline)[k + n - 1]? := fun lexemes => by
    rw [List.getElem?_map, List.getElem?_tail, List.getElem?_drop, Nat.sub_add_cancel behind]
  have atEnd : s.view.endNewline = t.view.endNewline := by
    simp only [Cursor.view, step.left.trailing, step.right.trailing, same.atEnd]
  have aheadLeft : s.view.ahead = (Input.ofTokens a).lexemes.drop k := step.left.ahead
  have aheadRight : t.view.ahead = (Input.ofTokens b).lexemes.drop k := step.right.ahead
  rw [View.newlineAt, View.newlineAt, aheadLeft, aheadRight, gap, gap, same.between, atEnd]

theorem InStep.implicitEnd (same : Token.SameLayout a b) (step : InStep a b k s t) :
    s.view.implicitEnd = t.view.implicitEnd := by
  have empty : s.view.ahead.isEmpty = t.view.ahead.isEmpty := by
    have kinds := congrArg List.isEmpty (step.map_kind same)
    rwa [List.isEmpty_map, List.isEmpty_map] at kinds
  have before : s.view.before = t.view.before := step.before
  rw [View.implicitEnd, View.implicitEnd, empty, before]
  by_cases first : k = 0
  · have none : t.view.before = none := step.right.fresh first
    simp [none]
  · rw [step.newlineAt same (by omega)]

/-- Two parses in step get the same answer to a question, if it does not look at what stands before the
first token of the file. -/
theorem InStep.holds (same : Token.SameLayout a b) (step : InStep a b k s t) {look : Look}
    (sees : 0 < k ∨ look.looksBack = false) : look.holds s.view = look.holds t.view := by
  have kinds : s.view.ahead.map Lexeme.kind = t.view.ahead.map Lexeme.kind := step.map_kind same
  have head : ∀ accepts : Kind → Bool, s.view.ahead.head?.any (accepts ·.kind) =
      t.view.ahead.head?.any (accepts ·.kind) := fun accepts => by
    have first := congrArg (·.head?.any accepts) kinds
    simpa only [List.head?_map, Option.any_map] using first
  induction look with
  | current kind => exact head (· == kind)
  | currentAny wanted => exact head wanted.contains
  | next n kind =>
    have place := congrArg (·[n]?) kinds
    simp only [List.getElem?_map] at place
    rw [Look.holds, Look.holds, View.kindAt, View.kindAt, place]
  | atEnd =>
    have empty := congrArg List.isEmpty kinds
    rwa [List.isEmpty_map, List.isEmpty_map] at empty
  | implicitEnd => exact step.implicitEnd same
  | newlineBefore n =>
    refine step.newlineAt same ?_
    cases n with
    | zero => simpa [Look.looksBack] using sees
    | succ n => omega
  | inHeader => exact step.inHeader
  | shortDefinition => rw [Look.holds, Look.holds, kinds]
  | rangeDefinition => rw [Look.holds, Look.holds, kinds]
  | namedParameters => rw [Look.holds, Look.holds, kinds]
  | bracketColon => rw [Look.holds, Look.holds, List.map_tail, List.map_tail, kinds]
  | not look ih => rw [Look.holds, Look.holds, ih sees]
  | and left right ihLeft ihRight =>
    rw [Look.looksBack, Bool.or_eq_false_iff] at sees
    rw [Look.holds, Look.holds, ihLeft (sees.imp_right And.left), ihRight (sees.imp_right And.right)]
  | or left right ihLeft ihRight =>
    rw [Look.looksBack, Bool.or_eq_false_iff] at sees
    rw [Look.holds, Look.holds, ihLeft (sees.imp_right And.left), ihRight (sees.imp_right And.right)]

/-! Steps of two parses -/

theorem outlineOf_blanks {tokens : List Token} (trivia : ∀ t ∈ tokens, t.kind.isTrivia = true) :
    Tree.outlineOf (tokens.map State.leaf) = [] := by
  induction tokens with
  | nil => rfl
  | cons t rest ih =>
    have first := trivia t (List.mem_cons_self ..)
    have later := ih fun u member => trivia u (List.mem_cons_of_mem t member)
    simp only [List.map_cons, Tree.outlineOf, State.leaf, Tree.outline, first, if_true, List.nil_append]
    exact later

theorem outlineOf_flush {s : State} (tidy : s.Tidy) :
    Tree.outlineOf s.flush.built = Tree.outlineOf s.built := by
  rw [State.flush, Tree.outlineOf_append, outlineOf_blanks tidy.pending, List.append_nil]

/-- Taking a token adds just this token to the outline. -/
theorem outlineOf_bump {s : State} (tidy : s.Tidy) :
    Tree.outlineOf s.bump.built =
      Tree.outlineOf s.built ++ ((s.ahead.map Lexeme.kind).head?.map Outline.token).toList := by
  have token : Tree.outlineOf ((s.ahead.head?.map Lexeme.token).toList.map State.leaf) =
      ((s.ahead.map Lexeme.kind).head?.map Outline.token).toList := by
    cases ahead : s.ahead with
    | nil => rfl
    | cons l rest =>
      have significant := tidy.token l (ahead ▸ List.mem_cons_self ..)
      simp only [Lexeme.kind] at significant
      simp [Tree.outlineOf, Tree.outline, State.leaf, Lexeme.kind, significant]
  rw [State.bump, Tree.outlineOf_append, Cursor.upcoming, List.map_append, Tree.outlineOf_append,
    outlineOf_blanks tidy.pending, List.nil_append, token]

namespace InStep

theorem bump (same : Token.SameLayout a b) (step : InStep a b k s t) : InStep a b (k + 1) s.bump t.bump where
  left := step.left.advance
  right := step.right.advance
  before := by
    have kinds := step.map_kind same
    have taken : ∀ s : State, s.bump.before = (s.ahead.map Lexeme.kind).head?.or s.before := fun s => by
      cases ahead : s.ahead <;> simp [State.bump, Cursor.advance, Cursor.skip, ahead]
    rw [taken, taken, kinds, step.before]
  inHeader := by
    have kept : ∀ s : State, s.bump.inHeader = s.inHeader := fun s => by
      cases ahead : s.ahead <;> simp [State.bump, Cursor.advance, Cursor.skip, ahead]
    rw [kept, kept, step.inHeader]
  errors := by
    have kept : ∀ s : State, s.bump.errors = s.errors := fun s => by
      cases ahead : s.ahead <;> simp [State.bump, Cursor.advance, Cursor.skip, ahead]
    rw [kept, kept]
    exact step.errors
  built := by
    rw [outlineOf_bump step.left.tidy, outlineOf_bump step.right.tidy, step.map_kind same, step.built]

theorem report (step : InStep a b k s t) (cause : SyntaxError.Cause) :
    InStep a b k (s.report cause) (t.report cause) where
  left := step.left.report cause
  right := step.right.report cause
  before := step.before
  inHeader := step.inHeader
  errors := by
    obtain ⟨marks, left, right⟩ := step.errors
    refine ⟨marks ++ [(cause, k)], ?_, ?_⟩
    · rw [State.report, step.left.errors_report, left, List.map_append]
      rfl
    · rw [State.report, step.right.errors_report, right, List.map_append]
      rfl
  built := step.built

theorem inside (step : InStep a b k s t) : InStep a b k s.inside t.inside :=
  ⟨step.left.skip, step.right.skip, step.before, step.inHeader, step.errors, rfl⟩

theorem resume (step : InStep a b k s t) {m : Nat} {s' t' : State} (inner : InStep a b m s' t')
    (kind : Option Kind) : InStep a b m (s.resume kind s') (t.resume kind t') := by
  refine ⟨inner.left, inner.right, inner.before, inner.inHeader, inner.errors, ?_⟩
  rw [State.resume, State.resume, Tree.outlineOf_append, Tree.outlineOf_append,
    outlineOf_flush step.left.tidy, outlineOf_flush step.right.tidy, step.built]
  cases kind with
  | none => rw [gather, gather, inner.built]
  | some kind => simp only [gather, Tree.outlineOf, Tree.outline, inner.built]

theorem wrap (step : InStep a b k s t) (kind : Kind) :
    InStep a b k { s with built := [.node kind s.built] } { t with built := [.node kind t.built] } :=
  ⟨step.left, step.right, step.before, step.inHeader, step.errors, by
    simp only [Tree.outlineOf, Tree.outline, step.built]⟩

theorem header (step : InStep a b k s t) (within : Bool) :
    InStep a b k { s with inHeader := within } { t with inHeader := within } :=
  ⟨step.left.inHeader within, step.right.inHeader within, step.before, rfl, step.errors, step.built⟩

end InStep

theorem behind_or {k j : Nat} {behind taken : Bool} (far : behind = true → 0 < k) (le : k ≤ j)
    (passes : taken = true → k < j) (known : (behind || taken) = true) : 0 < j := by
  rcases Bool.or_eq_true_iff.mp known with old | new
  · exact Nat.lt_of_lt_of_le (far old) le
  · exact Nat.zero_lt_of_lt (passes new)

theorem lt_of_passes {k j i : Nat} {early late : Bool} (le : k ≤ j) (le' : j ≤ i)
    (first : early = true → k < j) (second : late = true → j < i) (known : (early || late) = true) :
    k < i := by
  rcases Bool.or_eq_true_iff.mp known with taken | taken
  · exact Nat.lt_of_lt_of_le (first taken) le'
  · exact Nat.lt_of_le_of_lt le (second taken)

/-- Two parses in step stay in step, whatever they do, and get the same answers. -/
theorem Does.inStep (same : Token.SameLayout a b) {n m : Nat} {act : Action} {s s' t t' : State} {x y : Bool}
    (first : Does n act s x s') (second : Does m act t y t') {k : Nat} (step : InStep a b k s t)
    {behind : Bool} (sees : act.looksBackBehind behind = true) (far : behind = true → 0 < k) :
    x = y ∧ ∃ j, k ≤ j ∧ (act.passes = true → k < j) ∧ InStep a b j s' t' := by
  induction first generalizing m t t' y k behind with
  | answer value s =>
    cases second
    exact ⟨rfl, k, Nat.le_refl k, nofun, step⟩
  | ask look s =>
    cases second
    refine ⟨step.holds same ?_, k, Nat.le_refl k, nofun, step⟩
    rw [Action.looksBackBehind, Bool.or_eq_true, Bool.not_eq_true'] at sees
    exact sees.imp_left far
  | seq _ _ ihFirst ihSecond =>
    obtain ⟨seesFirst, seesSecond⟩ := Bool.and_eq_true_iff.mp sees
    cases second with
    | seq early late =>
      obtain ⟨_, j, le, passes, step⟩ := ihFirst early step seesFirst far
      obtain ⟨answer, i, le', passes', step⟩ := ihSecond late step seesSecond (behind_or far le passes)
      exact ⟨answer, i, Nat.le_trans le le', lt_of_passes le le' passes passes', step⟩
  | yes _ _ ihAsked ihWay =>
    obtain ⟨seesBoth, seesNo⟩ := Bool.and_eq_true_iff.mp sees
    obtain ⟨seesQuestion, seesYes⟩ := Bool.and_eq_true_iff.mp seesBoth
    cases second with
    | yes asked way =>
      obtain ⟨_, j, le, passes, step⟩ := ihAsked asked step seesQuestion far
      obtain ⟨answer, i, le', passes', step⟩ := ihWay way step seesYes (behind_or far le passes)
      refine ⟨answer, i, Nat.le_trans le le', fun known => ?_, step⟩
      exact lt_of_passes le le' passes (fun ways => passes' (Bool.and_eq_true_iff.mp ways).1) known
    | no asked way =>
      obtain ⟨answer, _⟩ := ihAsked asked step seesQuestion far
      cases answer
  | no _ _ ihAsked ihWay =>
    obtain ⟨seesBoth, seesNo⟩ := Bool.and_eq_true_iff.mp sees
    obtain ⟨seesQuestion, seesYes⟩ := Bool.and_eq_true_iff.mp seesBoth
    cases second with
    | yes asked way =>
      obtain ⟨answer, _⟩ := ihAsked asked step seesQuestion far
      cases answer
    | no asked way =>
      obtain ⟨_, j, le, passes, step⟩ := ihAsked asked step seesQuestion far
      obtain ⟨answer, i, le', passes', step⟩ := ihWay way step seesNo (behind_or far le passes)
      refine ⟨answer, i, Nat.le_trans le le', fun known => ?_, step⟩
      exact lt_of_passes le le' passes (fun ways => passes' (Bool.and_eq_true_iff.mp ways).2) known
  | bump s =>
    cases second
    exact ⟨rfl, k + 1, Nat.le_succ k, fun _ => Nat.lt_succ_self k, step.bump same⟩
  | node kind _ ih =>
    cases second with
    | node _ inner =>
      obtain ⟨answer, j, le, passes, inside⟩ := ih inner step.inside sees far
      exact ⟨answer, j, le, passes, step.resume inside (some kind)⟩
  | marked _ ih =>
    cases second with
    | marked inner =>
      obtain ⟨answer, j, le, passes, inside⟩ := ih inner step.inside sees far
      exact ⟨answer, j, le, passes, step.resume inside none⟩
  | wrap kind _ ih =>
    cases second with
    | wrap _ inner =>
      obtain ⟨answer, j, le, passes, step⟩ := ih inner step sees far
      exact ⟨answer, j, le, passes, step.wrap kind⟩
  | fail cause s =>
    cases second
    exact ⟨rfl, k, Nat.le_refl k, nofun, step.report cause⟩
  | header within _ ih =>
    cases second with
    | header _ inner =>
      obtain ⟨answer, j, le, passes, inside⟩ := ih inner (step.header within) sees far
      refine ⟨answer, j, le, passes, ?_⟩
      rw [step.inHeader]
      exact inside.header _
  | moves _ ih =>
    cases second with
    | moves inner =>
      obtain ⟨_, j, le, passes, behind⟩ := ih inner step sees far
      refine ⟨?_, j, le, passes, behind⟩
      rw [step.length_ahead same, behind.length_ahead same]
  | again _ _ ihRound ihRest =>
    cases second with
    | again round rest =>
      obtain ⟨_, j, le, _, step⟩ := ihRound round step sees far
      obtain ⟨answer, i, le', _, step⟩ := ihRest rest step sees fun known => Nat.lt_of_lt_of_le (far known) le
      exact ⟨answer, i, Nat.le_trans le le', nofun, step⟩
    | stop round =>
      obtain ⟨answer, _⟩ := ihRound round step sees far
      cases answer
  | stop _ ihRound =>
    cases second with
    | again round rest =>
      obtain ⟨answer, _⟩ := ihRound round step sees far
      cases answer
    | stop round =>
      obtain ⟨_, j, le, _, step⟩ := ihRound round step sees far
      exact ⟨rfl, j, le, nofun, step⟩
  | @call _ rule _ _ _ _ ih =>
    cases second with
    | call body =>
      obtain ⟨answer, j, le, _, step⟩ := ih body step rule.looksBackBehind_body nofun
      exact ⟨answer, j, le, nofun, step⟩

end

end Grammar

namespace Parse

open Grammar

/-- Layout does not change syntax. Two files whose significant tokens have the same kinds, with line
breaks between the same two of them and before the end of the file or not, have the same syntax tree but
for blanks, comments and the texts of tokens. The same errors are found in them in the same order, each at
the token of the same number, or at the end of the file. -/
theorem outline_of_sameLayout {a b : List Token} (same : Token.SameLayout a b) :
    (ofTokens a).tree.outline = (ofTokens b).tree.outline ∧
      ∃ marks : List (SyntaxError.Cause × Nat), (ofTokens a).errors = marks.map (SyntaxError.atToken a) ∧
        (ofTokens b).errors = marks.map (SyntaxError.atToken b) := by
  obtain ⟨_, _, first⟩ := does_finalState a
  obtain ⟨_, _, second⟩ := does_finalState b
  have start : InStep a b 0 (.ofTokens a) (.ofTokens b) :=
    ⟨.ofTokens a, .ofTokens b, rfl, rfl, ⟨[], rfl, rfl⟩, rfl⟩
  have sees : (Action.call .sourceFile).looksBackBehind false = true := rfl
  obtain ⟨_, k, _, _, final⟩ := first.inStep same second start sees nofun
  refine ⟨?_, final.errors⟩
  rw [ofTokens_tree, ofTokens_tree, Tree.outline, Tree.outline, outlineOf_flush final.left.tidy,
    outlineOf_flush final.right.tidy, final.built]

/-- A file in which a parenthesis is not closed. -/
def terse : List Token :=
  Token.scan "var a=f(b c"

/-- The same file with other names, and with comments and blanks in other places. -/
def roomy : List Token :=
  Token.scan "//\nvar x = y( z/**/w"

theorem outline_of_sameLayout_roomy :
    Token.SameLayout terse roomy ∧ (ofTokens terse).tree.outline = (ofTokens roomy).tree.outline ∧
      (∀ file ∈ [terse, roomy], (ofTokens file).errors =
        [(SyntaxError.Cause.packageClause, 0), (.missing .rightParen, 6), (.terminator, 6)].map
          (SyntaxError.atToken file)) := by
  have same : Token.SameLayout terse roomy := ⟨by decide +kernel, by decide +kernel, by decide +kernel⟩
  exact ⟨same, (outline_of_sameLayout same).1, by decide +kernel⟩

end Parse

end GoNav
