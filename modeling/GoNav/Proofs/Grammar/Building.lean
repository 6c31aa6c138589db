import GoNav.Proofs.Grammar.Assembling
import GoNav.Proofs.Grammar.Does
import GoNav.Proofs.Grammar.Shape

namespace GoNav.Grammar

namespace Does

variable {n : Nat} {s t : State} {b : Bool}

/-! What was done, by the form of the action -/

theorem of_ask {look : Look} (done : Does n (.ask look) s b t) : look.holds s.view = b ∧ t = s := by
  cases done
  exact ⟨rfl, rfl⟩

theorem of_branch {look : Look} {yes no : Action} (done : Does n (.branch (.ask look) yes no) s b t) :
    look.holds s.view = true ∧ Does n yes s b t ∨ look.holds s.view = false ∧ Does n no s b t := by
  cases done with
  | yes asked way =>
    obtain ⟨answer, rfl⟩ := asked.of_ask
    exact Or.inl ⟨answer, way⟩
  | no asked way =>
    obtain ⟨answer, rfl⟩ := asked.of_ask
    exact Or.inr ⟨answer, way⟩

/-- One of several ways is gone, by the answer to its question, or the questions are all answered with
no. -/
theorem of_choose {ways : List (Look × Action)} {otherwise : Action}
    (done : Does n (.choose ways otherwise) s b t) :
    (∃ way ∈ ways, way.1.holds s.view = true ∧ Does n way.2 s b t) ∨
      (∀ way ∈ ways, way.1.holds s.view = false) ∧ Does n otherwise s b t := by
  induction ways with
  | nil => exact Or.inr ⟨nofun, done⟩
  | cons way rest ih =>
    rcases done.of_branch with ⟨answer, gone⟩ | ⟨answer, later⟩
    · exact Or.inl ⟨way, List.mem_cons_self .., answer, gone⟩
    · rcases ih later with ⟨other, member, found⟩ | ⟨none, gone⟩
      · exact Or.inl ⟨other, List.mem_cons_of_mem _ member, found⟩
      · refine Or.inr ⟨fun other member => ?_, gone⟩
        rcases List.mem_cons.mp member with rfl | behind
        · exact answer
        · exact none other behind

/-- Of the ways of a choice only those need a look that a check does not accept. -/
theorem of_choose_checked {ways : List (Look × Action)} {otherwise : Action} {Q : Prop} {check : Action → Bool}
    (done : Does n (.choose ways otherwise) s b t) (accepted : ∀ {a}, Does n a s b t → check a = true → Q)
    (special : ∀ way ∈ ways.filter (!check ·.2), way.1.holds s.view = true → Does n way.2 s b t → Q)
    (last : check otherwise = true) : Q := by
  rcases done.of_choose with ⟨way, member, answer, gone⟩ | ⟨_, gone⟩
  · cases checked : check way.2 with
    | true => exact accepted gone checked
    | false => exact special way (List.mem_filter.mpr ⟨member, by simp [checked]⟩) answer gone
  · exact accepted gone last

theorem of_expect {k : Kind} (done : Does n (.expect k) s b t) :
    b = true ∧ (Look.current k).holds s.view = true ∧ t = s.bump ∨
      b = false ∧ (Look.current k).holds s.view = false ∧ t = s.report (.missing k) := by
  cases done with
  | yes eaten last =>
    cases last
    rcases eaten.of_branch with ⟨current, taken⟩ | ⟨_, left⟩
    · cases taken
      exact .inl ⟨rfl, current, rfl⟩
    · cases left
  | no eaten failed =>
    cases failed
    rcases eaten.of_branch with ⟨_, taken⟩ | ⟨missing, left⟩
    · cases taken
    · cases left
      exact .inr ⟨rfl, missing, rfl⟩

/-- What each round of a loop keeps is true at its end. -/
theorem of_loop {P : State → Prop} {inner : Action} (round : ∀ {s b t}, P s → Does n inner s b t → P t)
    (done : Does n (.loop inner) s b t) (first : P s) : P t := by
  generalize whole : Action.loop inner = a at done
  induction done with
  | again step _ _ ih =>
    cases whole
    exact ih round (round first step) rfl
  | stop step _ =>
    cases whole
    exact round first step
  | _ => cases whole

/-- An action that wraps nothing but what was added since marks of its own only adds to what there is. -/
theorem prefix_built {a : Action} (done : Does n a s b t) (wraps : a.wrapsMarked false = true) :
    s.built <+: t.built := by
  have flushed (s : State) (more : List Tree) : s.built <+: s.flush.built ++ more :=
    (List.prefix_append ..).trans (List.prefix_append ..)
  induction done with
  | answer | ask | fail => exact List.prefix_refl _
  | seq _ _ ihFirst ihSecond =>
    obtain ⟨left, right⟩ := Bool.and_eq_true_iff.mp wraps
    exact (ihFirst left).trans (ihSecond right)
  | yes _ _ ihAsked ihWay =>
    simp only [Action.wrapsMarked, Bool.and_eq_true] at wraps
    exact (ihAsked wraps.1.1).trans (ihWay wraps.1.2)
  | no _ _ ihAsked ihWay =>
    simp only [Action.wrapsMarked, Bool.and_eq_true] at wraps
    exact (ihAsked wraps.1.1).trans (ihWay wraps.2)
  | bump => exact List.prefix_append ..
  | node | marked => exact flushed ..
  | wrap => cases wraps
  | header _ _ ih | moves _ ih | stop _ ih => exact ih wraps
  | again _ _ ihFirst ihRest => exact (ihFirst wraps).trans (ihRest wraps)
  | @call _ rule _ _ _ _ ih => exact ih rule.wrapsMarked_body

end Does

/-! Shapes -/

/-- What is true of each state of a parse if it is true of the first. -/
structure Invariant (Inv : State → Prop) : Prop where
  does {n : Nat} {a : Action} {s t : State} {b : Bool} (done : Does n a s b t) : Inv s → Inv t
  inside {s : State} : Inv s → Inv s.inside
  header {s : State} (within : Bool) : Inv s → Inv { s with inHeader := within }

theorem tidy_invariant : Invariant fun s => s.Tidy :=
  ⟨fun done => tidy_stable.does done, Cursor.Tidy.skip, fun within tidy => tidy.inHeader within⟩

/-- An action that builds only nodes of kinds that may have any children keeps the shape, if the rules
that it follows do. -/
theorem Does.shapedAll {shape : Kind → List Tree → Prop} {allowed : Kind → Bool} {Inv : State → Prop}
    {n : Nat} {a : Action} {s t : State} {b : Bool} (invariant : Invariant Inv)
    (free : ∀ kind, allowed kind = true → ∀ children, shape kind children)
    (calls : ∀ {rule s b t}, Does n (.call rule) s b t → Inv s → Tree.ShapedAll shape s.built →
      Tree.ShapedAll shape t.built)
    (done : Does n a s b t) (builds : a.buildsOnly allowed = true) (begun : Inv s)
    (kept : Tree.ShapedAll shape s.built) : Tree.ShapedAll shape t.built := by
  induction done with
  | answer | ask | fail => exact kept
  | seq first _ ihFirst ihSecond =>
    obtain ⟨left, right⟩ := Bool.and_eq_true_iff.mp builds
    exact ihSecond calls right (invariant.does first begun) (ihFirst calls left begun kept)
  | yes asked _ ihAsked ihWay =>
    simp only [Action.buildsOnly, Bool.and_eq_true] at builds
    exact ihWay calls builds.1.2 (invariant.does asked begun) (ihAsked calls builds.1.1 begun kept)
  | no asked _ ihAsked ihWay =>
    simp only [Action.buildsOnly, Bool.and_eq_true] at builds
    exact ihWay calls builds.2 (invariant.does asked begun) (ihAsked calls builds.1.1 begun kept)
  | bump => exact shapedAll_append kept (shapedAll_leaves _)
  | node kind _ ih =>
    obtain ⟨own, inner⟩ := Bool.and_eq_true_iff.mp builds
    exact shapedAll_append (shapedAll_flush kept)
      ⟨⟨free kind own _, ih calls inner (invariant.inside begun) trivial⟩, trivial⟩
  | marked _ ih =>
    exact shapedAll_append (shapedAll_flush kept) (ih calls builds (invariant.inside begun) trivial)
  | wrap kind _ ih =>
    obtain ⟨own, inner⟩ := Bool.and_eq_true_iff.mp builds
    exact ⟨⟨free kind own _, ih calls inner begun kept⟩, trivial⟩
  | header within _ ih => exact ih calls builds (invariant.header within begun) kept
  | moves _ ih => exact ih calls builds begun kept
  | again first _ ihFirst ihRest =>
    exact ihRest calls builds (invariant.does first begun) (ihFirst calls builds begun kept)
  | stop _ ih => exact ih calls builds begun kept
  | call body _ => exact calls (.call body) begun kept

end GoNav.Grammar
