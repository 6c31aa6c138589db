import GoNav.Proofs.Grammar.Reading

namespace GoNav.Grammar

/-- A loop that stops only where it is done, and comes nearer to a bound each time it goes on, is done
before the bound is used up. -/
theorem iterate_done (Done : State → Prop) (measure : State → Nat) {step : State → Bool × State}
    (stops : ∀ s, (step s).1 = false → Done (step s).2)
    (goes : ∀ s, (step s).1 = true → measure (step s).2 < measure s)
    (n : Nat) (s : State) (enough : measure s < n) : Done (iterate step n s).2 := by
  induction n generalizing s with
  | zero => omega
  | succ n ih =>
    rw [iterate_succ]
    by_cases again : (step s).1 = true
    · have nearer := goes s again
      rw [if_pos again]
      exact ih _ (by omega)
    · rw [if_neg again]
      exact stops s (by simpa using again)

/-- The number of significant tokens ahead. -/
def State.remaining (s : State) : Nat :=
  s.ahead.length

theorem Reads.remaining_le {s t : State} (reads : Reads s t) : t.remaining ≤ s.remaining :=
  reads.ahead.length_le

theorem State.remaining_bump {s : State} (more : s.ahead ≠ []) : s.bump.remaining < s.remaining := by
  have positive := List.length_pos_iff.mpr more
  simp only [remaining, bump_ahead, List.length_tail]
  omega

section

variable {follow : Rule → State → Bool × State}

theorem run_when (look : Look) (a : Action) (s : State) :
    (Action.when look a).run follow s = if look.holds s.view then a.run follow s else (false, s) := by
  rw [Action.when, run_branch]
  rfl

theorem run_eat (kind : Kind) (s : State) :
    (Action.eat kind).run follow s =
      if (Look.current kind).holds s.view then (true, s.bump) else (false, s) := by
  rw [Action.eat, run_branch]
  rfl

/-- One round of a loop with a question. -/
def round (look : Look) (body : State → Bool × State) (s : State) : Bool × State :=
  if look.holds s.view then (true, (body s).2) else (false, s)

theorem run_repeatWhile (look : Look) (a : Action) (s : State) :
    (Action.repeatWhile look a).run follow s =
      iterate (round look (a.run follow)) (s.remaining + 1) s := by
  have rounds : (Action.branch (.ask look) (.seq a .yes) .no).run follow = round look (a.run follow) := by
    funext t
    rw [run_branch]
    rfl
  rw [← rounds]
  rfl

theorem run_progress (a : Action) (cause : SyntaxError.Cause) (s : State) :
    (Action.progress a cause).run follow s =
      if (a.run follow s).2.ahead.length ≠ s.ahead.length then (true, (a.run follow s).2)
      else (Action.when (.not (.or .atEnd (.current .semicolon))) (.skipOne cause)).run follow
        (a.run follow s).2 := by
  simp only [Action.progress, run_branch, Action.run, Action.yes, bne_iff_ne]

theorem remaining_skipOne (follow : Rule → State → Bool × State) (cause : SyntaxError.Cause)
    {s : State} (more : s.ahead ≠ []) :
    ((Action.skipOne cause).run follow s).2.remaining < s.remaining := by
  have taken : (State.bump { (s.report cause).flush with built := [] }).remaining <
      (State.mk (s.report cause).flush.toCursor []).remaining := State.remaining_bump more
  exact taken

theorem remaining_endStatement (follow : Rule → State → Bool × State) {s : State}
    (semicolon : (Look.current .semicolon).holds s.view = true) :
    (Action.endStatement.run follow s).2.remaining < s.remaining := by
  have more : s.ahead ≠ [] := by
    intro none
    simp [Look.holds, Cursor.view, none] at semicolon
  have taken := State.remaining_bump more
  simp only [Action.endStatement, run_branch, run_eat, semicolon, if_true]
  exact taken

/-- A rule and its recovery take a token, unless they stand before a semicolon. -/
theorem remaining_progress (each : ∀ rule s, Reads s (follow rule s).2) (a : Action)
    (cause : SyntaxError.Cause) {s : State} (more : s.ahead ≠ []) :
    ((Action.progress a cause).run follow s).2.remaining < s.remaining ∨
      (Look.current .semicolon).holds ((Action.progress a cause).run follow s).2.view = true := by
  have reads := reads_stable.action each a s
  rw [run_progress]
  by_cases same : (a.run follow s).2.ahead.length = s.ahead.length
  · rw [if_neg (by simpa using same), run_when]
    have left : (a.run follow s).2.ahead ≠ [] := reads.ahead.eq_of_length same ▸ more
    by_cases semicolon : (Look.current .semicolon).holds (a.run follow s).2.view = true
    · right
      simp only [Look.holds] at semicolon
      simp [Look.holds, semicolon]
    · left
      have skipped := remaining_skipOne follow cause left
      have inside : (Look.not (.or .atEnd (.current .semicolon))).holds
          (a.run follow s).2.view = true := by
        simp only [Look.holds, Cursor.view, Bool.not_eq_true] at semicolon
        simp [Look.holds, Cursor.view, semicolon, left]
      rw [if_pos inside]
      exact Nat.lt_of_lt_of_le skipped (Nat.le_of_eq same)
  · left
    rw [if_pos same]
    exact Nat.lt_of_le_of_ne reads.remaining_le same

/-- Whatever its rule does, a declaration, specification, member or statement takes a token together
with its end, which takes the semicolon that recovery leaves. -/
theorem remaining_progress_endStatement (each : ∀ rule s, Reads s (follow rule s).2) (a : Action)
    (cause : SyntaxError.Cause) {s : State} (more : s.ahead ≠ []) :
    ((Action.seq (.progress a cause) .endStatement).run follow s).2.remaining < s.remaining := by
  have first := (reads_stable.action each (.progress a cause) s).remaining_le
  have second := (reads_stable.action each .endStatement
    ((Action.progress a cause).run follow s).2).remaining_le
  simp only [Action.run]
  rcases remaining_progress each a cause more with taken | semicolon
  · omega
  · have taken := remaining_endStatement follow semicolon
    omega

/-- A loop whose rounds all take a token goes on until its question is answered with no. -/
theorem repeatWhile_done {look : Look} {a : Action}
    (takes : ∀ s, look.holds s.view = true → (a.run follow s).2.remaining < s.remaining) (s : State) :
    look.holds ((Action.repeatWhile look a).run follow s).2.view = false := by
  rw [run_repeatWhile]
  refine iterate_done (fun t => look.holds t.view = false) State.remaining ?_ ?_ _ s
    (Nat.lt_succ_self _)
  · intro t stopped
    by_cases asked : look.holds t.view = true
    · simp [round, asked] at stopped
    · simp [round, asked]
  · intro t went
    by_cases asked : look.holds t.view = true
    · simpa [round, asked] using takes t asked
    · simp [round, asked] at went

/-- Declarations are read up to the end of the file. -/
theorem ahead_sourceFile (each : ∀ rule s, Reads s (follow rule s).2) (s : State) :
    (Rule.sourceFile.body.run follow s).2.ahead = [] := by
  have takes : ∀ t : State, (Look.not .atEnd).holds t.view = true →
      ((Action.seq (.progress (.call .topLevelDecl) .declaration) .endStatement).run follow t).2.remaining <
        t.remaining := by
    intro t more
    apply remaining_progress_endStatement each
    intro none
    simp [Look.holds, Cursor.view, none] at more
  have done := repeatWhile_done takes ((Action.repeatWhile (.current .importKw)
    (.seq (.call .importDecl) .endStatement)).run follow ((Action.branch (.ask (.current .packageKw))
      (.seq (.call .packageClause) .endStatement) (.fail .packageClause)).run follow s).2).2
  rw [Look.holds, Bool.not_eq_false'] at done
  exact List.isEmpty_iff.mp done

end

end GoNav.Grammar
