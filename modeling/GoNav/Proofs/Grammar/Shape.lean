import GoNav.Parse
import GoNav.Proofs.Grammar.Stable
import GoNav.Proofs.Node.Descent

namespace GoNav

mutual

/-- Each node of a tree has a shape, which may depend on its kind. -/
def Tree.Shaped (shape : Kind → List Tree → Prop) : Tree → Prop
  | .token .. => True
  | .node kind children => shape kind children ∧ Tree.ShapedAll shape children

def Tree.ShapedAll (shape : Kind → List Tree → Prop) : List Tree → Prop
  | [] => True
  | t :: rest => t.Shaped shape ∧ Tree.ShapedAll shape rest

end

theorem Tree.shapedAll_iff {shape : Kind → List Tree → Prop} {trees : List Tree} :
    Tree.ShapedAll shape trees ↔ ∀ t ∈ trees, t.Shaped shape := by
  induction trees with
  | nil => simp [ShapedAll]
  | cons t rest ih => simp [ShapedAll, ih]

/-- What is true of each node of a tree is true of each node below its root. -/
theorem Node.shape_of_mem_descendants {shape : Kind → List Tree → Prop} {n m : Node}
    (shaped : (Tree.node n.kind n.trees).Shaped shape) (member : m ∈ n.descendants) :
    shape m.kind m.trees := by
  induction n using children_induction with
  | step n ih =>
    rcases mem_descendants.mp member with rfl | ⟨c, child, below⟩
    · exact shaped.1
    · have tree := (mem_elementsIn (mem_children.mp child)).1
      exact ih c child (Tree.shapedAll_iff.mp shaped.2 _ tree) below

namespace Grammar

variable {shape : Kind → List Tree → Prop} {follow : Rule → State → Bool × State}

/-- A step that adds only nodes of the given shape. -/
def Keeps (shape : Kind → List Tree → Prop) (step : State → Bool × State) : Prop :=
  ∀ s, Tree.ShapedAll shape s.built → Tree.ShapedAll shape (step s).2.built

theorem shapedAll_append {left right : List Tree} (before : Tree.ShapedAll shape left)
    (behind : Tree.ShapedAll shape right) : Tree.ShapedAll shape (left ++ right) := by
  rw [Tree.shapedAll_iff] at *
  intro t member
  exact (List.mem_append.mp member).elim (before t) (behind t)

theorem shapedAll_leaves (tokens : List Token) : Tree.ShapedAll shape (tokens.map State.leaf) := by
  rw [Tree.shapedAll_iff]
  intro t member
  obtain ⟨token, _, rfl⟩ := List.mem_map.mp member
  trivial

theorem shapedAll_flush {s : State} (kept : Tree.ShapedAll shape s.built) :
    Tree.ShapedAll shape s.flush.built :=
  shapedAll_append kept (shapedAll_leaves _)

namespace Keeps

theorem iterate {step : State → Bool × State} (each : Keeps shape step) (n : Nat) :
    Keeps shape (Grammar.iterate step n) := by
  intro s kept
  induction n generalizing s with
  | zero => exact kept
  | succ n ih =>
    rw [iterate_succ]
    split
    · exact ih _ (each s kept)
    · exact each s kept

theorem seq {first second : Action} (left : Keeps shape (first.run follow))
    (right : Keeps shape (second.run follow)) : Keeps shape ((Action.seq first second).run follow) :=
  fun s kept => right _ (left s kept)

theorem branch {question yes no : Action} (asked : Keeps shape (question.run follow))
    (onYes : Keeps shape (yes.run follow)) (onNo : Keeps shape (no.run follow)) :
    Keeps shape ((Action.branch question yes no).run follow) := by
  intro s kept
  rw [run_branch]
  split
  · exact onYes _ (asked s kept)
  · exact onNo _ (asked s kept)

theorem bump : Keeps shape (Action.bump.run follow) :=
  fun _ kept => shapedAll_append kept (shapedAll_leaves _)

theorem node {kind : Kind} {inner : Action} (inside : Keeps shape (inner.run follow))
    (own : ∀ children, shape kind children) : Keeps shape ((Action.node kind inner).run follow) := by
  intro s kept
  have children := inside { s.flush with built := [] } trivial
  exact shapedAll_append (shapedAll_flush kept) ⟨⟨own _, children⟩, trivial⟩

end Keeps

/-- Whether an action, apart from the rules that it follows, builds nodes of certain kinds only. -/
def Action.buildsOnly (allowed : Kind → Bool) : Action → Bool
  | .seq first second => first.buildsOnly allowed && second.buildsOnly allowed
  | .branch question yes no =>
    question.buildsOnly allowed && yes.buildsOnly allowed && no.buildsOnly allowed
  | .node kind inner | .wrap kind inner => allowed kind && inner.buildsOnly allowed
  | .marked inner | .header _ inner | .moves inner | .loop inner => inner.buildsOnly allowed
  | .answer _ | .ask _ | .bump | .fail _ | .call _ => true

/-- An action that builds only nodes of kinds that may have any children keeps the shape. -/
theorem Action.keeps {allowed : Kind → Bool} (free : ∀ kind, allowed kind → ∀ children, shape kind children)
    (each : ∀ rule, Keeps shape (follow rule)) (a : Action) (builds : a.buildsOnly allowed = true) :
    Keeps shape (a.run follow) := by
  induction a with
  | answer value => exact fun _ kept => kept
  | ask look => exact fun _ kept => kept
  | seq first second ihFirst ihSecond =>
    simp only [buildsOnly, Bool.and_eq_true] at builds
    exact (ihFirst builds.1).seq (ihSecond builds.2)
  | branch question yes no ihQuestion ihYes ihNo =>
    simp only [buildsOnly, Bool.and_eq_true] at builds
    exact (ihQuestion builds.1.1).branch (ihYes builds.1.2) (ihNo builds.2)
  | bump => exact Keeps.bump
  | node kind inner ih =>
    simp only [buildsOnly, Bool.and_eq_true] at builds
    exact (ih builds.2).node (free kind builds.1)
  | marked inner ih =>
    intro s kept
    exact shapedAll_append (shapedAll_flush kept) (ih builds { s.flush with built := [] } trivial)
  | wrap kind inner ih =>
    simp only [buildsOnly, Bool.and_eq_true] at builds
    intro s kept
    exact ⟨⟨free kind builds.1 _, ih builds.2 s kept⟩, trivial⟩
  | fail cause => exact fun _ kept => kept
  | header inside inner ih => exact fun s kept => ih builds { s with inHeader := inside } kept
  | moves inner ih => exact fun s kept => ih builds s kept
  | loop inner ih => exact fun s kept => (ih builds).iterate _ s kept
  | call rule => exact each rule

/-- The nodes of a binary expression are those of its operators. -/
theorem Rule.buildsOnly_binary {allowed : Kind → Bool}
    (operators : ∀ level ∈ operatorLevels, allowed level.kind = true) (least : Nat) :
    (Rule.binary least).body.buildsOnly allowed = true := by
  simp only [body, Action.buildsOnly, Bool.true_and]
  refine Action.choose_induction (motive := fun a => a.buildsOnly allowed = true) ?_ rfl ?_
  · intro way member
    obtain ⟨level, among, rfl⟩ := List.mem_map.mp member
    simp [Action.buildsOnly, Action.yes, operators level (List.mem_filter.mp among).1]
  · intro look yes no onYes onNo
    simp only [Action.buildsOnly, onYes, onNo, Bool.and_true]

/-! Import paths -/

/-- The node of an import path holds the quoted path, and nothing else. -/
def QuotesPath (kind : Kind) (children : List Tree) : Prop :=
  kind = .importString → ∃ quote text, children = [.token quote text] ∧ (quote = .string ∨ quote = .rawString)

theorem quotesPath_of_ne {kind : Kind} (other : (kind != .importString) = true) (children : List Tree) :
    QuotesPath kind children :=
  fun same => absurd same (bne_iff_ne.mp other)

theorem Rule.buildsOnly_body {rule : Rule} (other : rule ≠ .importSpec) :
    rule.body.buildsOnly (· != .importString) = true := by
  cases rule with
  | importSpec => exact absurd rfl other
  | binary least => exact Rule.buildsOnly_binary (by decide) least
  | paramDecl named => cases named <;> rfl
  | _ => rfl

/-- Where a string is ahead, it goes into the node of the import path. -/
theorem keeps_importString : Keeps QuotesPath
    ((Action.branch (.ask (.currentAny [.string, .rawString])) (.node .importString .bump)
      (.fail .importPath)).run follow) := by
  intro s kept
  rw [run_branch]
  split
  · rename_i quote
    simp only [Action.run, Look.holds, Cursor.view] at quote
    cases ahead : s.ahead with
    | nil => simp [ahead] at quote
    | cons l rest =>
      have built : ({ s.flush with built := [] } : State).bump.built = [State.leaf l.token] := by
        simp [State.bump, State.flush, Cursor.upcoming, Cursor.skip, ahead]
      refine shapedAll_append (shapedAll_flush kept) ⟨⟨fun _ => ?_, ?_⟩, trivial⟩
      · refine ⟨l.token.kind, l.token.text, built, ?_⟩
        simpa [ahead, Lexeme.kind] using quote
      · exact Keeps.bump { s.flush with built := [] } trivial
  · exact kept

theorem keeps_quotesPath (depth : Nat) (rule : Rule) : Keeps QuotesPath (rule.run depth) := by
  induction depth generalizing rule with
  | zero => exact fun _ kept => kept
  | succ depth ih =>
    have free : ∀ kind, (kind != .importString) = true → ∀ children, QuotesPath kind children :=
      fun _ => quotesPath_of_ne
    by_cases special : rule = .importSpec
    · subst special
      have named : Keeps QuotesPath ((Action.when (.currentAny [.ident, .dot]) .bump).run (Rule.run depth)) :=
        Action.keeps free ih _ rfl
      exact (named.seq keeps_importString).node (quotesPath_of_ne rfl)
    · exact Action.keeps free ih rule.body (Rule.buildsOnly_body special)

end Grammar

theorem Parse.quotesPath (text : String) : (ofText text).tree.Shaped Grammar.QuotesPath :=
  ⟨Grammar.quotesPath_of_ne rfl _,
    Grammar.shapedAll_flush (Grammar.keeps_quotesPath _ .sourceFile (.ofTokens (Token.scan text)) trivial)⟩

end GoNav
