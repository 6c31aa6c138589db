import GoNav.Grammar.Run

namespace GoNav.Grammar

theorem iterate_succ (step : State → Bool × State) (n : Nat) (s : State) :
    iterate step (n + 1) s = if (step s).1 then iterate step n (step s).2 else (false, (step s).2) := by
  simp only [iterate]
  split <;> rename_i result <;> simp [result]

theorem run_branch {follow : Rule → State → Bool × State} (question yes no : Action) (s : State) :
    (Action.branch question yes no).run follow s =
      if (question.run follow s).1 then yes.run follow (question.run follow s).2
      else no.run follow (question.run follow s).2 := by
  simp only [Action.run]
  split <;> rename_i result <;> simp [result]

/-- What holds of all ways of a choice, and of a question if it holds of both its ways, holds of the
choice. -/
theorem Action.choose_induction {motive : Action → Prop} {ways : List (Look × Action)}
    {otherwise : Action} (each : ∀ way ∈ ways, motive way.2) (last : motive otherwise)
    (ask : ∀ look yes no, motive yes → motive no → motive (.branch (.ask look) yes no)) :
    motive (Action.choose ways otherwise) := by
  induction ways with
  | nil => exact last
  | cons way rest ih =>
    have first := each way (List.mem_cons_self ..)
    have later := ih fun other member => each other (List.mem_cons_of_mem _ member)
    exact ask way.1 way.2 _ first later

/-- A relation between the state before and the state behind, closed under the single steps of a
parse. Such a relation holds of whatever actions and rules do. -/
structure Stable (R : State → State → Prop) : Prop where
  refl (s : State) : R s s
  trans {s t u : State} : R s t → R t u → R s u
  bump (s : State) : R s s.bump
  report (s : State) (cause : SyntaxError.Cause) : R s (s.report cause)
  node {s t : State} (kind : Kind) : R { s.flush with built := [] } t →
    R s { t with built := s.flush.built ++ [.node kind t.built] }
  marked {s t : State} : R { s.flush with built := [] } t →
    R s { t with built := s.flush.built ++ t.built }
  wrap {s t : State} (kind : Kind) : R s t → R s { t with built := [.node kind t.built] }
  header {s t : State} (inside : Bool) : R { s with inHeader := inside } t →
    R s { t with inHeader := s.inHeader }

namespace Stable

variable {R : State → State → Prop}

theorem iterate (stable : Stable R) {step : State → Bool × State}
    (each : ∀ s, R s (step s).2) (n : Nat) (s : State) : R s (Grammar.iterate step n s).2 := by
  induction n generalizing s with
  | zero => exact stable.refl s
  | succ n ih =>
    rw [iterate_succ]
    split
    · exact stable.trans (each s) (ih _)
    · exact each s

theorem action (stable : Stable R) {follow : Rule → State → Bool × State}
    (each : ∀ rule s, R s (follow rule s).2) (a : Action) (s : State) : R s (a.run follow s).2 := by
  induction a generalizing s with
  | answer value => exact stable.refl s
  | ask look => exact stable.refl s
  | seq first second ihFirst ihSecond => exact stable.trans (ihFirst s) (ihSecond _)
  | branch question yes no ihQuestion ihYes ihNo =>
    rw [run_branch]
    split
    · exact stable.trans (ihQuestion s) (ihYes _)
    · exact stable.trans (ihQuestion s) (ihNo _)
  | bump => exact stable.bump s
  | node kind inner ih => exact stable.node kind (ih _)
  | marked inner ih => exact stable.marked (ih _)
  | wrap kind inner ih => exact stable.wrap kind (ih s)
  | fail cause => exact stable.report s cause
  | header inside inner ih => exact stable.header inside (ih _)
  | moves inner ih => exact ih s
  | loop inner ih => exact stable.iterate ih _ s
  | call rule => exact each rule s

/-- What every single step keeps, a rule keeps, however deep it goes. -/
theorem rule (stable : Stable R) (depth : Nat) (rule : Rule) (s : State) :
    R s (rule.run depth s).2 := by
  induction depth generalizing rule s with
  | zero => exact stable.refl s
  | succ depth ih => exact stable.action ih rule.body s

end Stable

end GoNav.Grammar
