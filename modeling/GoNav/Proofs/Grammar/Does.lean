import GoNav.Proofs.Grammar.Progress

namespace GoNav.Grammar

/-- The state in which the inside of a node, or what stands behind a mark, is begun. -/
def State.inside (s : State) : State :=
  { s.flush with built := [] }

/-- What is made of the trees of an inside: a node of a kind, or just these trees. -/
def gather (kind : Option Kind) (trees : List Tree) : List Tree :=
  match kind with
  | some kind => [.node kind trees]
  | none => trees

/-- The state behind an inside that ends in the state `t`. -/
def State.resume (s : State) (kind : Option Kind) (t : State) : State :=
  { t with built := s.flush.built ++ gather kind t.built }

/-- What an action does from a state: its answer and the state that it leaves, with no bound on how
often loops go round. Rules follow one another inward at most `depth` deep, and none is cut short. -/
inductive Does : (depth : Nat) → Action → State → Bool → State → Prop
  | answer {n : Nat} (value : Bool) (s : State) : Does n (.answer value) s value s
  | ask {n : Nat} (look : Look) (s : State) : Does n (.ask look) s (look.holds s.view) s
  | seq {n : Nat} {first second : Action} {s t u : State} {b c : Bool} :
      Does n first s b t → Does n second t c u → Does n (.seq first second) s c u
  | yes {n : Nat} {question yes no : Action} {s t u : State} {b : Bool} :
      Does n question s true t → Does n yes t b u → Does n (.branch question yes no) s b u
  | no {n : Nat} {question yes no : Action} {s t u : State} {b : Bool} :
      Does n question s false t → Does n no t b u → Does n (.branch question yes no) s b u
  | bump {n : Nat} (s : State) : Does n .bump s true s.bump
  | node {n : Nat} {inner : Action} {s t : State} {b : Bool} (kind : Kind) :
      Does n inner s.inside b t → Does n (.node kind inner) s b (s.resume (some kind) t)
  | marked {n : Nat} {inner : Action} {s t : State} {b : Bool} :
      Does n inner s.inside b t → Does n (.marked inner) s b (s.resume none t)
  | wrap {n : Nat} {inner : Action} {s t : State} {b : Bool} (kind : Kind) :
      Does n inner s b t → Does n (.wrap kind inner) s b { t with built := [.node kind t.built] }
  | fail {n : Nat} (cause : SyntaxError.Cause) (s : State) : Does n (.fail cause) s false (s.report cause)
  | header {n : Nat} {inner : Action} {s t : State} {b : Bool} (within : Bool) :
      Does n inner { s with inHeader := within } b t →
      Does n (.header within inner) s b { t with inHeader := s.inHeader }
  | moves {n : Nat} {inner : Action} {s t : State} {b : Bool} :
      Does n inner s b t → Does n (.moves inner) s (t.ahead.length != s.ahead.length) t
  | again {n : Nat} {inner : Action} {s t u : State} {b : Bool} :
      Does n inner s true t → Does n (.loop inner) t b u → Does n (.loop inner) s b u
  | stop {n : Nat} {inner : Action} {s t : State} : Does n inner s false t → Does n (.loop inner) s false t
  | call {n : Nat} {rule : Rule} {s t : State} {b : Bool} :
      Does n rule.body s b t → Does (n + 1) (.call rule) s b t

/-- What every single step keeps, an action keeps. -/
theorem Stable.does {R : State → State → Prop} (stable : Stable R) {n : Nat} {a : Action} {s t : State}
    {b : Bool} (done : Does n a s b t) : R s t := by
  induction done with
  | answer value s => exact stable.refl s
  | ask look s => exact stable.refl s
  | seq _ _ first second => exact stable.trans first second
  | yes _ _ asked way => exact stable.trans asked way
  | no _ _ asked way => exact stable.trans asked way
  | bump s => exact stable.bump s
  | node kind _ inner => exact stable.node kind inner
  | marked _ inner => exact stable.marked inner
  | wrap kind _ inner => exact stable.wrap kind inner
  | fail cause s => exact stable.report s cause
  | header within _ inner => exact stable.header within inner
  | moves _ inner => exact inner
  | again _ _ round rest => exact stable.trans round rest
  | stop _ round => exact round
  | call _ body => exact body

theorem Does.remaining_le {n : Nat} {a : Action} {s t : State} {b : Bool} (done : Does n a s b t) :
    t.remaining ≤ s.remaining :=
  (reads_stable.does done).remaining_le

/-- An action that takes no significant token leaves those ahead as they are. -/
theorem Does.ahead_eq {n : Nat} {a : Action} {s t : State} {b : Bool} (done : Does n a s b t)
    (same : t.ahead.length = s.ahead.length) : t.ahead = s.ahead :=
  (reads_stable.does done).ahead.eq_of_length same

/-! Errors -/

theorem errors_stable : Stable fun s t => s.errors <+: t.errors where
  refl s := List.prefix_refl _
  trans first second := first.trans second
  bump s := by
    cases ahead : s.ahead <;> simp [State.bump, Cursor.advance, Cursor.skip, ahead]
  report s cause := List.prefix_append ..
  node _ inner := inner
  marked inner := inner
  wrap _ inner := inner
  header _ inner := inner

/-- An action that ends without an error has met none. -/
theorem Does.errors_eq_nil {n : Nat} {a : Action} {s t : State} {b : Bool} (done : Does n a s b t)
    (quiet : t.errors = []) : s.errors = [] :=
  List.prefix_nil.mp (quiet ▸ errors_stable.does done)

/-! Blanks and comments -/

/-- Blanks and comments stand where they belong: before significant tokens and at the end of the file,
and nothing else stands there. -/
structure Cursor.Tidy (c : Cursor) : Prop where
  pending : ∀ t ∈ c.pending, t.kind.isTrivia = true
  lead : ∀ l ∈ c.ahead, ∀ t ∈ l.lead, t.kind.isTrivia = true
  token : ∀ l ∈ c.ahead, l.kind.isTrivia = false
  trailing : ∀ t ∈ c.trailing, t.kind.isTrivia = true

namespace Cursor.Tidy

variable {c : Cursor}

theorem skip (tidy : c.Tidy) : c.skip.Tidy :=
  ⟨fun _ member => absurd member List.not_mem_nil, tidy.lead, tidy.token, tidy.trailing⟩

theorem inHeader (tidy : c.Tidy) (within : Bool) : Cursor.Tidy { c with inHeader := within } :=
  ⟨tidy.pending, tidy.lead, tidy.token, tidy.trailing⟩

theorem leadOf {ahead : List Lexeme} {trailing : List Token}
    (lead : ∀ l ∈ ahead, ∀ t ∈ l.lead, t.kind.isTrivia = true)
    (behind : ∀ t ∈ trailing, t.kind.isTrivia = true) :
    ∀ t ∈ Cursor.leadOf ahead trailing, t.kind.isTrivia = true := by
  cases ahead with
  | nil => exact behind
  | cons l rest => exact lead l (List.mem_cons_self ..)

theorem advance (tidy : c.Tidy) : c.advance.Tidy := by
  unfold Cursor.advance
  split
  · exact tidy.skip
  · rename_i l rest ahead
    have lead : ∀ m ∈ rest, ∀ t ∈ m.lead, t.kind.isTrivia = true :=
      fun m member => tidy.lead m (ahead ▸ List.mem_cons_of_mem l member)
    exact ⟨leadOf lead tidy.trailing, lead,
      fun m member => tidy.token m (ahead ▸ List.mem_cons_of_mem l member), tidy.trailing⟩

theorem group (tokens : List Token) {lead : List Token} (before : ∀ t ∈ lead, t.kind.isTrivia = true) :
    (∀ l ∈ (Input.group lead tokens).lexemes, (∀ t ∈ l.lead, t.kind.isTrivia = true) ∧
      l.kind.isTrivia = false) ∧
    ∀ t ∈ (Input.group lead tokens).trailing, t.kind.isTrivia = true := by
  induction tokens generalizing lead with
  | nil => exact ⟨fun _ member => absurd member List.not_mem_nil, before⟩
  | cons t rest ih =>
    unfold Input.group
    split
    · rename_i trivia
      refine ih fun u member => ?_
      rcases List.mem_append.mp member with old | new
      · exact before u old
      · exact List.mem_singleton.mp new ▸ trivia
    · rename_i significant
      obtain ⟨lexemes, trailing⟩ := @ih [] fun _ member => absurd member List.not_mem_nil
      refine ⟨fun l member => ?_, trailing⟩
      rcases List.mem_cons.mp member with rfl | later
      · exact ⟨before, by simpa [Lexeme.kind] using significant⟩
      · exact lexemes l later

theorem ofTokens (tokens : List Token) : (Cursor.ofTokens tokens).Tidy := by
  obtain ⟨lexemes, trailing⟩ := @group tokens []
    fun _ member => absurd member List.not_mem_nil
  exact ⟨leadOf (fun l member => (lexemes l member).1) trailing, fun l member => (lexemes l member).1,
    fun l member => (lexemes l member).2, trailing⟩

end Cursor.Tidy

theorem tidy_stable : Stable fun s t => s.Tidy → t.Tidy where
  refl _ tidy := tidy
  trans first second tidy := second (first tidy)
  bump _ tidy := tidy.advance
  report _ _ tidy := ⟨tidy.pending, tidy.lead, tidy.token, tidy.trailing⟩
  node _ inner tidy := inner tidy.skip
  marked inner tidy := inner tidy.skip
  wrap _ inner tidy := inner tidy
  header _ inner tidy := (inner (tidy.inHeader _)).inHeader _

end GoNav.Grammar
