import GoNav.Proofs.Grammar.Depth

namespace GoNav.Grammar

/-- A way to describe a list of trees by what is added to it, one thing after the other. There is no
result where something must not be added. -/
structure Sketch (δ : Type) where
  /-- Whether files with errors are described too. -/
  lenient : Bool
  /-- Of no trees yet, in a node of a kind or behind a mark. -/
  nothing : Option Kind → δ
  bump : Option Place → δ → Option δ
  /-- Of a node by itself, from what describes its children. -/
  node : Kind → δ → Option δ
  append : δ → δ → Option δ
  /-- Of what either describes. -/
  join : δ → δ → Option δ
  /-- Of no trees yet, where a rule is begun. -/
  start : Rule → δ
  /-- Of what a rule adds. -/
  adds : Rule → δ

section

variable {δ : Type} [DecidableEq δ]

/-- Keeps a description of the trees since a node, a mark or a rule was begun, and whether they are all
that is built: only these go into a node when one is wrapped. -/
def Sketch.account (sketch : Sketch δ) : Account (Bool × δ) where
  lenient := sketch.lenient
  bump first e := (sketch.bump first e.2).map (e.1, ·)
  opened kind _ := (true, sketch.nothing kind)
  closed kind e inner :=
    (match kind with
      | some kind => (sketch.node kind inner.2).bind (sketch.append e.2)
      | none => sketch.append e.2 inner.2).map (e.1, ·)
  wrapped kind e := if e.1 then (sketch.node kind e.2).map (true, ·) else none
  moved e := e
  join e e' := if e.1 == e'.1 then (sketch.join e.2 e'.2).map (e.1, ·) else none
  start rule _ := (false, sketch.start rule)
  ends rule _ e := sketch.join (sketch.adds rule) e.2 == some (sketch.adds rule)
  called rule _ e := (sketch.append e.2 (sketch.adds rule)).map (e.1, ·)

/-- What a sketch says of a list of trees is true. -/
structure Sketch.Sound (sketch : Sketch δ) (Describes : δ → List Tree → Prop) : Prop where
  nothing (kind : Option Kind) : Describes (sketch.nothing kind) []
  start (rule : Rule) : Describes (sketch.start rule) []
  /-- Blanks and comments change nothing. -/
  blank {d : δ} {trees : List Tree} {t : Token} (described : Describes d trees)
    (trivia : t.kind.isTrivia = true) : Describes d (trees ++ [State.leaf t])
  bump {d d' : δ} {trees : List Tree} {t : Token} {first : Option Place} (described : Describes d trees)
    (known : ∀ place ∈ first, place.admits t.kind = true) (next : sketch.bump first d = some d') :
    Describes d' (trees ++ [State.leaf t])
  /-- At the end of the file no token is taken. -/
  atEnd {d d' : δ} {trees : List Tree} (described : Describes d trees)
    (next : sketch.bump none d = some d') : Describes d' trees
  node {d d' : δ} {trees : List Tree} {kind : Kind} (described : Describes d trees)
    (next : sketch.node kind d = some d') : Describes d' [.node kind trees]
  append {d d' d'' : δ} {left right : List Tree} (before : Describes d left) (behind : Describes d' right)
    (next : sketch.append d d' = some d'') : Describes d'' (left ++ right)
  join {d d' d'' : δ} {trees : List Tree} (joined : sketch.join d d' = some d'')
    (described : Describes d trees ∨ Describes d' trees) : Describes d'' trees

/-- The trees since something was begun are described, and they are all that is built if that is said. -/
def Tells (Describes : δ → List Tree → Prop) (base : List Tree) (e : Bool × δ) (s : State) : Prop :=
  (e.1 = true → base = []) ∧ ∃ added, s.built = base ++ added ∧ Describes e.2 added

variable {sketch : Sketch δ} {Describes : δ → List Tree → Prop}

omit [DecidableEq δ] in
theorem Sketch.Sound.blanks (sound : sketch.Sound Describes) {d : δ} {trees : List Tree}
    (described : Describes d trees) {tokens : List Token} (trivia : ∀ t ∈ tokens, t.kind.isTrivia = true) :
    Describes d (trees ++ tokens.map State.leaf) := by
  induction tokens generalizing trees with
  | nil => simpa using described
  | cons t rest ih =>
    have first := sound.blank described (trivia t (List.mem_cons_self ..))
    simpa using ih first fun u member => trivia u (List.mem_cons_of_mem t member)

omit [DecidableEq δ] in
theorem Sketch.Sound.flush (sound : sketch.Sound Describes) {base : List Tree} {d : δ} {s : State}
    (tidy : s.Tidy) {added : List Tree} (built : s.built = base ++ added) (described : Describes d added) :
    ∃ added', s.flush.built = base ++ added' ∧ Describes d added' := by
  refine ⟨added ++ s.pending.map State.leaf, ?_, sound.blanks described tidy.pending⟩
  rw [State.flush, built, List.append_assoc]

theorem Sketch.Sound.account (sound : sketch.Sound Describes) : sketch.account.Sound (Tells Describes) where
  bump {base e e' s first} tidy held known next := by
    obtain ⟨own, added, built, described⟩ := held
    obtain ⟨d, taken, rfl⟩ := Option.map_eq_some_iff.mp next
    refine ⟨own, added ++ s.upcoming.map State.leaf, by rw [State.bump, built, List.append_assoc], ?_⟩
    have before := sound.blanks described tidy.pending
    cases ahead : s.ahead with
    | nil =>
      have unknown : first = none := Option.eq_none_iff_forall_not_mem.mpr fun place member => by
        obtain ⟨l, rest, split, _⟩ := known place member
        rw [ahead] at split
        cases split
      subst unknown
      simpa [Cursor.upcoming, ahead] using sound.atEnd before taken
    | cons l rest =>
      have admits : ∀ place ∈ first, place.admits l.token.kind = true := fun place member => by
        obtain ⟨m, later, split, admitted⟩ := known place member
        rw [ahead] at split
        cases split
        exact admitted
      simpa [Cursor.upcoming, ahead] using sound.bump before admits taken
  inside {base e s} kind tidy held := by
    obtain ⟨own, added, built, described⟩ := held
    refine ⟨[], ⟨fun _ => rfl, [], rfl, sound.nothing kind⟩, fun {e' e'' t} _ inner closed => ?_⟩
    obtain ⟨_, within, builtWithin, describedWithin⟩ := inner
    obtain ⟨before, flushed, described⟩ := sound.flush tidy built described
    obtain ⟨d, joined, rfl⟩ := Option.map_eq_some_iff.mp closed
    refine ⟨own, before ++ gather kind t.built, by rw [State.resume, flushed, List.append_assoc], ?_⟩
    rw [builtWithin, List.nil_append]
    cases kind with
    | none => exact sound.append described describedWithin joined
    | some kind =>
      obtain ⟨alone, made, joined⟩ := Option.bind_eq_some_iff.mp joined
      exact sound.append described (sound.node describedWithin made) joined
  wrap {base e e' s kind} held next := by
    obtain ⟨own, added, built, described⟩ := held
    simp only [Sketch.account] at next
    split at next
    · rename_i whole
      obtain ⟨d, made, rfl⟩ := Option.map_eq_some_iff.mp next
      obtain rfl := own whole
      exact ⟨fun _ => rfl, _, rfl, built ▸ sound.node described made⟩
    · cases next
  report _ _ held := held
  header _ held := held
  moved _ held _ := held
  join {base e e' e'' s} joined held := by
    simp only [Sketch.account] at joined
    split at joined
    · rename_i same
      obtain ⟨d, either, rfl⟩ := Option.map_eq_some_iff.mp joined
      rcases held with ⟨own, added, built, described⟩ | ⟨own, added, built, described⟩
      · exact ⟨own, added, built, sound.join either (Or.inl described)⟩
      · exact ⟨beq_iff_eq.mp same ▸ own, added, built, sound.join either (Or.inr described)⟩
    · cases joined
  called {base e e' s rule ready} held next := by
    obtain ⟨own, added, built, described⟩ := held
    obtain ⟨d, joined, rfl⟩ := Option.map_eq_some_iff.mp next
    refine ⟨s.built, ⟨fun claimed => absurd claimed Bool.false_ne_true, [], by simp, sound.start rule⟩,
      fun {last t} _ inner ends => ?_⟩
    obtain ⟨_, within, builtWithin, describedWithin⟩ := inner
    refine ⟨own, added ++ within, by rw [builtWithin, built, List.append_assoc], ?_⟩
    exact sound.append described (sound.join (beq_iff_eq.mp ends) (Or.inr describedWithin)) joined

/-- What a rule that may be begun anywhere adds is described. -/
theorem Sketch.Sound.call (sound : sketch.Sound Describes) (rules : ∀ rule, sketch.account.passes rule = true)
    {n : Nat} {rule : Rule} {s t : State} {b : Bool} (done : Does n (.call rule) s b t)
    (free : rule.isGuarded = false) (tidy : s.Tidy) (quiet : sketch.lenient = true ∨ t.errors = []) :
    ∃ added, t.built = s.built ++ added ∧ Describes (sketch.adds rule) added := by
  have begun : Tells Describes s.built (sketch.account.start rule false) s :=
    ⟨fun claimed => absurd claimed Bool.false_ne_true, [], (List.append_nil _).symm, sound.start rule⟩
  obtain ⟨e, ends, _, added, built, described⟩ := done.exists_ends sound.account rules free tidy quiet begun
  exact ⟨added, built, sound.join (beq_iff_eq.mp ends) (Or.inr described)⟩

/-- The children of the root of a file are described by what the rule for a file adds. -/
theorem Sketch.Sound.ofTokens (sound : sketch.Sound Describes)
    (rules : ∀ rule, sketch.account.passes rule = true) {tokens : List Token}
    (quiet : sketch.lenient = true ∨ (Parse.ofTokens tokens).errors = []) :
    Describes (sketch.adds .sourceFile) (Parse.ofTokens tokens).tree.children := by
  obtain ⟨depth, answer, done⟩ := Parse.does_finalState tokens
  have tidy := Cursor.Tidy.ofTokens tokens
  obtain ⟨added, built, described⟩ := sound.call rules done rfl tidy quiet
  obtain ⟨all, flushed, described⟩ := sound.flush (tidy_stable.does done tidy) built described
  rw [State.ofTokens, List.nil_append] at flushed
  rw [Parse.ofTokens_tree, Tree.children, flushed]
  exact described

end

end GoNav.Grammar
