import GoNav.Grammar.Assemble
import GoNav.Proofs.Grammar.Stable

namespace GoNav.Grammar

/-- Whether an action wraps only what was added since a mark of its own, or since one that it is done
under. -/
def Action.wrapsMarked : Action → Bool → Bool
  | .seq first second, under => first.wrapsMarked under && second.wrapsMarked under
  | .branch question yes no, under =>
    question.wrapsMarked under && yes.wrapsMarked under && no.wrapsMarked under
  | .node _ inner, _ => inner.wrapsMarked false
  | .marked inner, _ => inner.wrapsMarked true
  | .wrap _ inner, under => under && inner.wrapsMarked under
  | .header _ inner, under | .moves inner, under | .loop inner, under => inner.wrapsMarked under
  | .answer _, _ | .ask _, _ | .bump, _ | .fail _, _ | .call _, _ => true

theorem Rule.wrapsMarked_body (rule : Rule) : rule.body.wrapsMarked false = true := by
  cases rule with
  | binary least =>
    -- Which operators are there depends on the precedence, but they are all read in one way.
    simp only [body, Action.wrapsMarked, Bool.true_and]
    refine Action.choose_induction (motive := fun a => a.wrapsMarked true = true) ?_ rfl ?_
    · intro way member
      obtain ⟨level, _, rfl⟩ := List.mem_map.mp member
      rfl
    · intro look yes no onYes onNo
      simp only [Action.wrapsMarked, onYes, onNo, Bool.and_true]
  | paramDecl named => cases named <;> rfl
  | _ => rfl

/-- The state of a parse on top of what a builder held before. -/
def State.above (s : State) (b : Builder) : Assembly :=
  ⟨s.toCursor, ⟨b.opened, b.elements ++ s.built⟩⟩

namespace State

theorem add_eq (tokens : List Token) (b : Builder) :
    Assembly.add tokens b = ⟨b.opened, b.elements ++ tokens.map leaf⟩ := by
  induction tokens generalizing b with
  | nil => simp [Assembly.add]
  | cons t rest ih =>
    have later := ih (b.token t.kind t.text)
    simp only [Assembly.add, List.foldl_cons] at later ⊢
    rw [later]
    simp [Builder.token, leaf]

theorem flush_above (s : State) (b : Builder) : (s.above b).flush = s.flush.above b := by
  simp [Assembly.flush, above, flush, add_eq]

theorem bump_above (s : State) (b : Builder) : (s.above b).bump = s.bump.above b := by
  simp [Assembly.bump, above, bump, add_eq]

/-- What a builder holds when the present state counts as there before. -/
def settle (s : State) (b : Builder) : Builder :=
  ⟨b.opened, b.elements ++ s.built⟩

theorem above_settle (s t : State) (b : Builder) :
    t.above (s.settle b) = (State.mk t.toCursor (s.built ++ t.built)).above b := by
  simp [above, settle]

theorem above_eq_settle (s : State) (b : Builder) :
    s.above b = (State.mk s.toCursor []).above (s.settle b) := by
  simp [above_settle]

theorem startNode_above (s : State) (b : Builder) (kind : Kind) :
    (s.above b).startNode kind = (State.mk s.toCursor []).above ((s.settle b).startNode kind) := by
  simp [Assembly.startNode, Builder.startNode, above, settle]

/-- Closing a node takes in exactly what was built since it was opened. -/
theorem finishNode_above (s : State) (b : Builder) (kind : Kind) :
    (s.above (b.startNode kind)).finishNode =
      some ((State.mk s.toCursor [.node kind s.built]).above b) := by
  simp [above, Assembly.finishNode, Builder.finishNode, Builder.startNode]

end State

/-- The checkpoint of a mark is the place from which the state is on top of a builder, and the node
that is open was opened before it. -/
structure Marks (mark : Option Nat) (b : Builder) : Prop where
  place : ∀ checkpoint ∈ mark, checkpoint = b.elements.length
  opened : b.opened.head?.all (·.2 ≤ b.elements.length) = true

namespace Marks

theorem none {mark : Option Nat} {b : Builder} (marks : Marks mark b) : Marks none b :=
  ⟨by simp, marks.opened⟩

theorem startNode {mark : Option Nat} {b : Builder} (kind : Kind)
    (place : ∀ checkpoint ∈ mark, checkpoint = b.elements.length) : Marks mark (b.startNode kind) :=
  ⟨place, by simp [Builder.startNode]⟩

theorem settle {mark : Option Nat} {b : Builder} (marks : Marks mark b) (s : State) :
    Marks (some (s.settle b).checkpoint) (s.settle b) := by
  have opened := marks.opened
  refine ⟨by simp [Builder.checkpoint], ?_⟩
  simp only [State.settle, List.length_append]
  cases top : b.opened.head? with
  | none => rfl
  | some node =>
    simp only [top, Option.all_some, decide_eq_true_eq] at opened ⊢
    omega

theorem startNodeAt {checkpoint : Nat} {b : Builder} (marks : Marks (some checkpoint) b) (s : State)
    (kind : Kind) : (s.above b).startNodeAt checkpoint kind = some (s.above (b.startNode kind)) := by
  have place : checkpoint = b.elements.length := marks.place checkpoint rfl
  have valid : (s.above b).builder.isValid checkpoint = true := by
    simp [Builder.isValid, State.above, place, marks.opened]
  rw [Assembly.startNodeAt, Builder.startNodeAt, if_pos valid, place]
  rfl

end Marks

/-- Doing something with the calls of a builder is doing it on top of what the builder held, and no call
is a fault. -/
def Agrees (act : State → Bool × State) (build : Assembly → Option (Bool × Assembly)) (b : Builder) :
    Prop :=
  ∀ s, build (s.above b) = some ((act s).1, (act s).2.above b)

theorem Agrees.iterate {act : State → Bool × State} {build : Assembly → Option (Bool × Assembly)}
    {b : Builder} (agrees : Agrees act build b) (n : Nat) :
    Agrees (iterate act n) (iterateAssembly build n) b := by
  intro s
  induction n generalizing s with
  | zero => rfl
  | succ n ih =>
    simp only [iterateAssembly, iterate_succ, agrees s, Option.bind_some]
    split
    · exact ih _
    · rfl

theorem Action.assemble_eq {follow : Rule → State → Bool × State}
    {build : Rule → Assembly → Option (Bool × Assembly)}
    (rules : ∀ rule b, Marks none b → Agrees (follow rule) (build rule) b)
    (a : Action) (mark : Option Nat) (b : Builder) (marks : Marks mark b)
    (wraps : a.wrapsMarked mark.isSome = true) :
    Agrees (a.run follow) (a.assemble build mark) b := by
  intro s
  induction a generalizing mark b s with
  | answer value => rfl
  | ask look => rfl
  | seq first second ihFirst ihSecond =>
    simp only [wrapsMarked, Bool.and_eq_true] at wraps
    simp only [assemble, run, ihFirst mark b marks wraps.1, Option.bind_some,
      ihSecond mark b marks wraps.2]
  | branch question yes no ihQuestion ihYes ihNo =>
    simp only [wrapsMarked, Bool.and_eq_true] at wraps
    simp only [assemble, run_branch, ihQuestion mark b marks wraps.1.1, Option.bind_some]
    split
    · exact ihYes mark b marks wraps.1.2 _
    · exact ihNo mark b marks wraps.2 _
  | bump => simp only [assemble, run, State.bump_above]
  | node kind inner ih =>
    have done := ih none ((s.flush.settle b).startNode kind) (.startNode kind (by simp)) wraps
    simp only [assemble, run, State.flush_above, State.startNode_above, done, Option.bind_some,
      State.finishNode_above, State.above_settle, Option.map_some]
  | marked inner ih =>
    have done := ih (some (s.flush.settle b).checkpoint) (s.flush.settle b) (marks.settle s.flush) wraps
    have checkpoint : (s.flush.above b).builder.checkpoint = (s.flush.settle b).checkpoint := rfl
    rw [assemble, State.flush_above, checkpoint, State.above_eq_settle, done, State.above_settle]
    rfl
  | wrap kind inner ih =>
    obtain ⟨under, inside⟩ := Bool.and_eq_true_iff.mp wraps
    obtain ⟨checkpoint, rfl⟩ := Option.isSome_iff_exists.mp under
    have done := ih (some checkpoint) (b.startNode kind) (.startNode kind marks.place) inside s
    simp only [assemble, run, Option.bind_some, marks.startNodeAt, done, State.finishNode_above,
      Option.map_some]
  | fail cause => rfl
  | header inside inner ih =>
    have done := ih mark b marks wraps { s with inHeader := inside }
    have same : { s.above b with inHeader := inside } = State.above { s with inHeader := inside } b := rfl
    rw [assemble, same, done]
    rfl
  | moves inner ih =>
    rw [assemble, ih mark b marks wraps s]
    rfl
  | loop inner ih => exact Agrees.iterate (ih mark b marks wraps) _ s
  | call rule => exact rules rule b marks.none s

/-- Following a rule with the calls of a builder gives what following it gives, and no call is a
fault. -/
theorem Rule.assemble_eq (depth : Nat) (rule : Rule) (b : Builder) (marks : Marks none b) :
    Agrees (rule.run depth) (rule.assemble depth) b := by
  induction depth generalizing rule b with
  | zero => intro s; rfl
  | succ depth ih => exact rule.body.assemble_eq ih none b marks rule.wrapsMarked_body

end GoNav.Grammar
