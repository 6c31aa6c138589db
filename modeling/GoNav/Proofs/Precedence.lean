import GoNav.Proofs.Grammar.Building
import GoNav.Proofs.Grammar.Children

namespace GoNav

/-- The precedence of a node with a binary operator. -/
def Kind.precedence? (kind : Kind) : Option Nat :=
  (Grammar.operatorLevels.find? (·.kind == kind)).map (·.precedence)

/-- How tightly the parts of a node hang together: by the precedence of its operator, then operands with
an operator before them, then all else. -/
def Kind.tightness (kind : Kind) : Nat :=
  kind.precedence?.getD (if kind == .unaryExpr then 6 else 7)

theorem Kind.tightness_of_precedence {kind : Kind} {p : Nat} (binary : kind.precedence? = some p) :
    kind.tightness = p := by
  rw [tightness, binary, Option.getD_some]

/-- The nodes that an operand makes together with what stands behind it. -/
def Kind.isPostfix : Kind → Bool
  | .referenceExpr | .callExpr | .indexExpr | .sliceExpr | .typeAssertionExpr => true
  | _ => false

/-- What stands behind the operand of such a node. The parenthesis of a call is in its arguments. -/
def Kind.endsOperand : Kind → Bool
  | .dot | .leftBracket | .leftParen | .argumentList => true
  | _ => false

namespace Grammar

/-- The precedence and the kind of node of a binary operator. -/
def binaryKind? (op : Kind) : Option (Nat × Kind) :=
  (operatorLevels.find? (·.operators.contains op)).map fun level => (level.precedence, level.kind)

/-- All nodes among the trees are as tight as that. -/
def Tight (least : Nat) (trees : List Tree) : Prop :=
  ∀ kind children, .node kind children ∈ trees → least ≤ kind.tightness

/-- There are only blanks and comments between the nodes. -/
def Sparse (trees : List Tree) : Prop :=
  ∀ kind text, .token kind text ∈ trees → kind.isTrivia = true

theorem Tight.append {least : Nat} {left right : List Tree} (before : Tight least left)
    (behind : Tight least right) : Tight least (left ++ right) :=
  fun kind children member => (List.mem_append.mp member).elim (before kind children) (behind kind children)

theorem Tight.of_le {least less : Nat} {trees : List Tree} (tight : Tight least trees) (weaker : less ≤ least) :
    Tight less trees :=
  fun kind children member => Nat.le_trans weaker (tight kind children member)

theorem tight_leaves (least : Nat) (tokens : List Token) : Tight least (tokens.map State.leaf) := by
  intro kind children member
  obtain ⟨t, _, isLeaf⟩ := List.mem_map.mp member
  cases isLeaf

theorem tight_node {kind : Kind} {children : List Tree} {least : Nat} (own : least ≤ kind.tightness) :
    Tight least [.node kind children] := by
  intro other inner member
  cases List.mem_singleton.mp member
  exact own

theorem Sparse.append {left right : List Tree} (before : Sparse left) (behind : Sparse right) :
    Sparse (left ++ right) :=
  fun kind text member => (List.mem_append.mp member).elim (before kind text) (behind kind text)

theorem sparse_leaves {tokens : List Token} (trivia : ∀ t ∈ tokens, t.kind.isTrivia = true) :
    Sparse (tokens.map State.leaf) := by
  intro kind text member
  obtain ⟨t, among, isLeaf⟩ := List.mem_map.mp member
  cases isLeaf
  exact trivia t among

theorem sparse_node (kind : Kind) (children : List Tree) : Sparse [.node kind children] :=
  fun _ _ member => nomatch List.mem_singleton.mp member

theorem Tight.token {least : Nat} {left right : List Tree} (before : Tight least left)
    (behind : Tight least right) (kind : Kind) (text : String) :
    Tight least (left ++ .token kind text :: right) := by
  intro other children member
  rcases List.mem_append.mp member with first | rest
  · exact before other children first
  · exact behind other children ((List.mem_cons.mp rest).resolve_left nofun)

/-! Operands of unary operators and of postfix expressions -/

/-- A node whose operand is tight enough: behind a unary operator, and before what stands behind the
operand of a postfix expression. -/
def TightOperand (kind : Kind) (children : List Tree) : Prop :=
  (kind = .unaryExpr → Tight 6 children) ∧
    (kind.isPostfix = true → Tight 7 (children.takeWhile (!·.kind.endsOperand)))

/-- What is known of some trees: that no significant token is among them, that the first one stands
between nodes of some tightness, and whether it ends an operand, or nothing. -/
inductive Layout where
  | plain (least : Nat)
  | split (before : Nat) (ends : Bool) (after : Nat)
  | any
  deriving DecidableEq

namespace Layout

def Fits (trees : List Tree) : Layout → Prop
  | .plain least => Tight least trees ∧ Sparse trees
  | .split before ends after => ∃ left kind text right, trees = left ++ .token kind text :: right ∧
      Tight before left ∧ Sparse left ∧ (ends = true → kind.endsOperand = true) ∧ Tight after right
  | .any => True

def append : Layout → Layout → Layout
  | .plain least, .plain least' => .plain (min least least')
  | .plain least, .split before ends after => .split (min least before) ends after
  | .split before ends after, .plain least => .split before ends (min after least)
  | .split before ends after, .split before' _ after' => .split before ends (min after (min before' after'))
  | .split before ends _, .any => .split before ends 0
  | _, _ => .any

def join : Layout → Layout → Layout
  | .plain least, .plain least' => .plain (min least least')
  | .split before ends after, .split before' ends' after' =>
    .split (min before before') (ends && ends') (min after after')
  | _, _ => .any

/-- A significant token. -/
def token : Option Place → Layout
  | some (some kinds) => .split 7 (kinds.all Kind.endsOperand) 7
  | some none => .split 7 false 7
  | none => .any

/-- All nodes are as tight as that. -/
def whole (least : Nat) : Layout → Bool
  | .plain own => least ≤ own
  | .split before _ after => least ≤ before && least ≤ after
  | .any => false

/-- The nodes before the token that ends an operand are as tight as that, all of them if there is no
such token. -/
def operand (least : Nat) : Layout → Bool
  | .split before true _ => least ≤ before
  | other => other.whole least

theorem Fits.append {d d' : Layout} {left right : List Tree} (before : d.Fits left) (behind : d'.Fits right) :
    (d.append d').Fits (left ++ right) := by
  unfold Layout.append
  split
  · exact ⟨(before.1.of_le (Nat.min_le_left ..)).append (behind.1.of_le (Nat.min_le_right ..)),
      before.2.append behind.2⟩
  · obtain ⟨first, kind, text, rest, rfl, tight, sparse, ends, after⟩ := behind
    exact ⟨left ++ first, kind, text, rest, (List.append_assoc ..).symm,
      (before.1.of_le (Nat.min_le_left ..)).append (tight.of_le (Nat.min_le_right ..)),
      before.2.append sparse, ends, after⟩
  · obtain ⟨first, kind, text, rest, rfl, tight, sparse, ends, after⟩ := before
    exact ⟨first, kind, text, rest ++ right, by simp, tight, sparse, ends,
      (after.of_le (Nat.min_le_left ..)).append (behind.1.of_le (Nat.min_le_right ..))⟩
  · obtain ⟨first, kind, text, rest, rfl, tight, sparse, ends, after⟩ := before
    obtain ⟨inner, other, written, last, rfl, tight', _, _, after'⟩ := behind
    refine ⟨first, kind, text, rest ++ (inner ++ .token other written :: last), by simp, tight, sparse, ends, ?_⟩
    have further := (tight'.of_le (Nat.min_le_left ..)).token (after'.of_le (Nat.min_le_right ..)) other written
    exact (after.of_le (Nat.min_le_left ..)).append (further.of_le (Nat.min_le_right ..))
  · obtain ⟨first, kind, text, rest, rfl, tight, sparse, ends, _⟩ := before
    exact ⟨first, kind, text, rest ++ right, by simp, tight, sparse, ends, fun _ _ _ => Nat.zero_le _⟩
  · trivial

theorem Fits.join {d d' : Layout} {trees : List Tree} (either : d.Fits trees ∨ d'.Fits trees) :
    (d.join d').Fits trees := by
  unfold Layout.join
  split
  · rcases either with ⟨tight, sparse⟩ | ⟨tight, sparse⟩
    · exact ⟨tight.of_le (Nat.min_le_left ..), sparse⟩
    · exact ⟨tight.of_le (Nat.min_le_right ..), sparse⟩
  · rcases either with ⟨left, kind, text, right, rfl, tight, sparse, ends, after⟩ |
      ⟨left, kind, text, right, rfl, tight, sparse, ends, after⟩
    · exact ⟨left, kind, text, right, rfl, tight.of_le (Nat.min_le_left ..), sparse,
        fun both => ends (Bool.and_eq_true_iff.mp both).1, after.of_le (Nat.min_le_left ..)⟩
    · exact ⟨left, kind, text, right, rfl, tight.of_le (Nat.min_le_right ..), sparse,
        fun both => ends (Bool.and_eq_true_iff.mp both).2, after.of_le (Nat.min_le_right ..)⟩
  · trivial

theorem fits_token {first : Option Place} {t : Token} (known : ∀ place ∈ first, place.admits t.kind = true) :
    (Layout.token first).Fits [State.leaf t] := by
  have alone (ends : Bool) (right : ends = true → t.kind.endsOperand = true) :
      (Layout.split 7 ends 7).Fits [State.leaf t] :=
    ⟨[], t.kind, t.text, [], rfl, nofun, nofun, right, nofun⟩
  unfold Layout.token
  split
  · exact alone _ fun all => List.all_eq_true.mp all _ (List.contains_iff_mem.mp (known _ rfl))
  · exact alone _ nofun
  · trivial

theorem Fits.blank {d : Layout} {trees : List Tree} (fit : d.Fits trees) {t : Token}
    (trivia : t.kind.isTrivia = true) : d.Fits (trees ++ [State.leaf t]) := by
  have nodes (least : Nat) : Tight least [State.leaf t] := tight_leaves least [t]
  have sparse : Sparse ([t].map State.leaf) := sparse_leaves (by simpa using trivia)
  cases d with
  | plain least => exact ⟨fit.1.append (nodes _), fit.2.append sparse⟩
  | split before ends after =>
    obtain ⟨left, kind, text, right, rfl, tight, sparse, ends, after⟩ := fit
    exact ⟨left, kind, text, right ++ [State.leaf t], by simp, tight, sparse, ends, after.append (nodes _)⟩
  | any => trivial

theorem Fits.tight {d : Layout} {trees : List Tree} {least : Nat} (fit : d.Fits trees)
    (whole : d.whole least = true) : Tight least trees := by
  cases d with
  | plain own => exact fit.1.of_le (of_decide_eq_true whole)
  | split before ends after =>
    obtain ⟨left, kind, text, right, rfl, tight, _, _, behind⟩ := fit
    obtain ⟨first, second⟩ := Bool.and_eq_true_iff.mp whole
    exact (tight.of_le (of_decide_eq_true first)).token (behind.of_le (of_decide_eq_true second)) kind text
  | any => cases whole

theorem mem_of_mem_takeWhile {p : Tree → Bool} {left right : List Tree} {mark t : Tree} (stops : p mark = false)
    (member : t ∈ (left ++ mark :: right).takeWhile p) : t ∈ left := by
  induction left with
  | nil => simp [stops] at member
  | cons first rest ih =>
    rw [List.cons_append, List.takeWhile_cons] at member
    split at member
    · rcases List.mem_cons.mp member with rfl | later
      · exact List.mem_cons_self ..
      · exact List.mem_cons_of_mem _ (ih later)
    · cases member

theorem Fits.operand {d : Layout} {trees : List Tree} {least : Nat} (fit : d.Fits trees)
    (enough : d.operand least = true) : Tight least (trees.takeWhile (!·.kind.endsOperand)) := by
  unfold Layout.operand at enough
  split at enough
  · obtain ⟨left, kind, text, right, rfl, tight, _, ends, _⟩ := fit
    intro other children member
    have stops : (!(Tree.token kind text).kind.endsOperand) = false := by
      rw [Tree.kind, ends rfl]
      rfl
    have before := mem_of_mem_takeWhile (p := fun t => !t.kind.endsOperand) stops member
    exact Nat.le_trans (of_decide_eq_true enough) (tight other children before)
  · exact fun other children member =>
      fit.tight enough other children ((List.takeWhile_prefix _).subset member)

/-- What a rule adds. -/
def ofRule : Rule → Layout
  | .operand | .primary | .typ | .typeName | .structType | .interfaceType | .argumentList | .literalValue =>
    .plain 7
  | .unary => .plain 6
  | .binary least => .plain (min least 6)
  | _ => .any

end Layout

/-- The account of the operands in each node. -/
def layout : Sketch Layout where
  lenient := true
  nothing _ := .plain 7
  bump first d := some (d.append (.token first))
  node kind d :=
    if (kind != .unaryExpr || d.whole 6) && (!kind.isPostfix || d.operand 7) then some (.plain kind.tightness)
    else none
  append d d' := some (d.append d')
  join d d' := some (d.join d')
  start _ := .plain 7
  adds := .ofRule

theorem layout_sound : layout.Sound fun d trees => Tree.ShapedAll TightOperand trees ∧ d.Fits trees where
  nothing _ := ⟨trivial, nofun, nofun⟩
  start _ := ⟨trivial, nofun, nofun⟩
  blank {d trees t} described trivia := by
    exact ⟨shapedAll_append described.1 (shapedAll_leaves [t]), described.2.blank trivia⟩
  bump {d d' trees t first} described known next := by
    cases next
    exact ⟨shapedAll_append described.1 (shapedAll_leaves [t]), described.2.append (Layout.fits_token known)⟩
  atEnd {d d' trees} described next := by
    cases next
    have nothing : (Layout.token none).Fits [] := trivial
    have fit := described.2.append nothing
    rw [List.append_nil] at fit
    exact ⟨described.1, fit⟩
  node {d d' trees kind} described next := by
    simp only [layout] at next
    split at next
    · rename_i tight
      cases next
      simp only [Bool.and_eq_true, Bool.or_eq_true, bne_iff_ne, ne_eq, Bool.not_eq_true'] at tight
      refine ⟨⟨⟨⟨fun unary => ?_, fun isPostfix => ?_⟩, described.1⟩, trivial⟩,
        tight_node (Nat.le_refl _), sparse_node kind trees⟩
      · exact described.2.tight (tight.1.resolve_left (absurd unary))
      · exact described.2.operand (tight.2.resolve_left (by simp [isPostfix]))
    · cases next
  append {d d' d'' left right} before behind next := by
    cases next
    exact ⟨shapedAll_append before.1 behind.1, before.2.append behind.2⟩
  join {d d' d'' trees} joined described := by
    cases joined
    exact ⟨described.elim (·.1) (·.1), .join (described.imp (·.2) (·.2))⟩

theorem layout_passes (rule : Rule) : layout.account.passes rule = true := by
  refine Account.passes_all (by decide +kernel) (fun n => ⟨rfl, ?_⟩) rule
  have same : min (n + 7) 6 = 6 := by omega
  funext ready d
  simp only [Sketch.account, layout, Layout.ofRule, same, Nat.min_self]

/-! Binary operators -/

/-- A binary expression has one operator, which is one for its kind of node. Its left side hangs together
at least as tightly, and its right side more tightly. -/
def Climbs (kind : Kind) (children : List Tree) : Prop :=
  ∀ p, kind.precedence? = some p → ∃ left op text right, children = left ++ .token op text :: right ∧
    binaryKind? op = some (p, kind) ∧ Sparse left ∧ Sparse right ∧ Tight p left ∧ Tight (p + 1) right

theorem climbs_of_precedence {kind : Kind} (other : kind.precedence?.isNone = true) (children : List Tree) :
    Climbs kind children := by
  intro p binary
  rw [binary] at other
  cases other

/-- Whether the next token is an operator of a level, and not behind the end of a statement. -/
def OperatorLevel.IsNext (level : OperatorLevel) (s : State) : Prop :=
  s.view.implicitEnd = false ∧ (Look.currentAny level.operators).holds s.view = true

theorem OperatorLevel.IsNext.exists_ahead {level : OperatorLevel} {s : State} (next : level.IsNext s) :
    ∃ l rest, s.ahead = l :: rest ∧ l.kind ∈ level.operators := by
  have found : s.ahead.head?.any (level.operators.contains ·.kind) = true := next.2
  cases ahead : s.ahead with
  | nil =>
    rw [ahead] at found
    cases found
  | cons l rest =>
    rw [ahead] at found
    exact ⟨l, rest, rfl, List.contains_iff_mem.mp found⟩

theorem operatorLevels_spec {level : OperatorLevel} (member : level ∈ operatorLevels) :
    level.precedence ≤ 5 ∧ level.kind.precedence? = some level.precedence ∧
      ∀ op ∈ level.operators, binaryKind? op = some (level.precedence, level.kind) := by
  revert level
  decide

namespace Does

variable {n : Nat} {s t : State} {b : Bool}

/-- The round of a binary expression: an operator and what stands to its right, around what there is. -/
def Round (n least : Nat) (s t : State) : Prop :=
  ∃ level ∈ operatorLevels, least ≤ level.precedence ∧ level.IsNext s ∧ ∃ b u,
    Does n (.call (.binary (level.precedence + 1))) s.bump b u ∧
      t = { u with built := [.node level.kind u.built] }

/-- No operator of a level or a higher one is next. -/
def Ended (least : Nat) (s : State) : Prop :=
  ∀ level ∈ operatorLevels, least ≤ level.precedence → ¬ level.IsNext s

/-- What a rule for binary expressions does again and again. -/
def climb (least : Nat) : Action :=
  .branch (.ask .implicitEnd) .no
    (.choose
      ((operatorLevels.filter (least ≤ ·.precedence)).map fun level =>
        (.currentAny level.operators,
         .seq (.wrap level.kind (.seq .bump (.call (.binary (level.precedence + 1))))) .yes))
      .no)

theorem of_climb {least : Nat} (done : Does n (climb least) s b t) :
    b = true ∧ Round n least s t ∨ b = false ∧ t = s ∧ Ended least s := by
  rcases done.of_branch with ⟨atEnd, stopped⟩ | ⟨further, done⟩
  · cases stopped
    refine Or.inr ⟨rfl, rfl, fun level _ _ next => ?_⟩
    rw [Look.holds, next.1] at atEnd
    cases atEnd
  · rcases done.of_choose with ⟨way, member, answer, done⟩ | ⟨none, stopped⟩
    · obtain ⟨level, among, rfl⟩ := List.mem_map.mp member
      obtain ⟨known, high⟩ := List.mem_filter.mp among
      cases done with
      | seq wrapped last =>
        cases last
        cases wrapped with
        | wrap _ inner =>
          cases inner with
          | seq bumped called =>
            cases bumped
            exact Or.inl ⟨rfl, level, known, of_decide_eq_true high, ⟨further, answer⟩, _, _, called, rfl⟩
    · cases stopped
      refine Or.inr ⟨rfl, rfl, fun level known high next => ?_⟩
      have absent := none _ (List.mem_map_of_mem (List.mem_filter.mpr ⟨known, decide_eq_true high⟩))
      rw [next.2] at absent
      cases absent

/-- What each round of a binary expression keeps is true at its end, where no operator is next that
would go on. -/
theorem of_loop_climb {least : Nat} {P : State → Prop} (round : ∀ s t, P s → Round n least s t → P t)
    (done : Does n (.loop (climb least)) s b t) (first : P s) : P t ∧ Ended least t := by
  generalize whole : Action.loop (climb least) = a at done
  induction done with
  | again step _ _ ih =>
    cases whole
    rcases step.of_climb with ⟨_, taken⟩ | ⟨no, _⟩
    · exact ih round (round _ _ first taken) rfl
    · cases no
  | stop step _ =>
    cases whole
    rcases step.of_climb with ⟨no, _⟩ | ⟨_, rfl, ended⟩
    · cases no
    · exact ⟨first, ended⟩
  | _ => cases whole

theorem ended {least : Nat} (done : Does n (.call (.binary least)) s b t) : Ended least t := by
  cases done with
  | call body =>
    cases body with
    | marked inner =>
      cases inner with
      | seq _ loop => exact (of_loop_climb (P := fun _ => True) (fun _ _ _ _ => trivial) loop trivial).2

end Does

/-- What is true before each operator of a binary expression: what there is hangs together tightly enough
to be its left side. -/
structure Standing (s : State) : Prop where
  tidy : s.Tidy
  sparse : Sparse s.built
  shaped : Tree.ShapedAll Climbs s.built
  tight : ∀ level ∈ operatorLevels, level.IsNext s → Tight level.precedence s.built

section

variable {n : Nat}
  (calls : ∀ {rule s b t}, Does n (.call rule) s b t → s.Tidy → Tree.ShapedAll Climbs s.built →
    Tree.ShapedAll Climbs t.built)
include calls

theorem Standing.round {least : Nat} {s t : State} (standing : Standing s) (round : Does.Round n least s t) :
    Standing t := by
  obtain ⟨level, known, _, next, b, u, right, rfl⟩ := round
  obtain ⟨low, kind, operators⟩ := operatorLevels_spec known
  obtain ⟨l, rest, ahead, among⟩ := next.exists_ahead
  have tidy := tidy_stable.bump s standing.tidy
  obtain ⟨added, built, _, tight, sparse⟩ := layout_sound.call layout_passes right rfl tidy (Or.inl rfl)
  have children : u.built =
      (s.built ++ s.pending.map State.leaf) ++ .token l.kind l.token.text :: added := by
    rw [built, State.bump, Cursor.upcoming, ahead]
    simp [State.leaf, Lexeme.kind]
  have shape : Climbs level.kind u.built := by
    intro p binary
    cases kind.symm.trans binary
    refine ⟨_, _, _, _, children, operators _ among, standing.sparse.append (sparse_leaves standing.tidy.pending),
      sparse, (standing.tight level known next).append (tight_leaves _ _), tight.of_le ?_⟩
    omega
  have after : u.Tidy := tidy_stable.does right tidy
  refine ⟨after, sparse_node _ _, ⟨⟨shape, ?_⟩, trivial⟩, fun other known next => tight_node ?_⟩
  · exact calls right tidy (shapedAll_append standing.shaped (shapedAll_leaves _))
  · -- the right side has left no operator that binds more tightly
    rw [Kind.tightness_of_precedence kind]
    exact Nat.le_of_not_lt fun higher => right.ended other known higher next

theorem shapedAll_binary {least : Nat} {s t : State} {b : Bool}
    (done : Does n (.marked (.seq (.call .unary) (.loop (Does.climb least)))) s b t) (tidy : s.Tidy)
    (kept : Tree.ShapedAll Climbs s.built) : Tree.ShapedAll Climbs t.built := by
  cases done with
  | marked inner =>
    cases inner with
    | @seq _ _ _ _ first _ _ _ unary loop =>
      obtain ⟨added, built, _, tight, sparse⟩ := layout_sound.call layout_passes unary rfl tidy.skip (Or.inl rfl)
      have alone : first.built = added := built
      have standing : Standing first := by
        refine ⟨tidy_stable.does unary tidy.skip, alone ▸ sparse, calls unary tidy.skip trivial, ?_⟩
        intro level known _
        have low := (operatorLevels_spec known).1
        exact alone ▸ tight.of_le (by omega)
      have last := (Does.of_loop_climb (fun _ _ before => before.round calls) loop standing).1
      exact shapedAll_append (shapedAll_flush kept) last.shaped

end

theorem Rule.buildsOnly_of_ne_binary {rule : Rule} (other : ∀ least, rule ≠ .binary least) :
    rule.body.buildsOnly (·.precedence?.isNone) = true := by
  cases rule with
  | binary least => exact absurd rfl (other least)
  | paramDecl named => cases named <;> rfl
  | _ => rfl

/-- Rules build binary expressions only with sides that hang together tightly enough. -/
theorem shapedAll_call {n : Nat} {rule : Rule} {s t : State} {b : Bool} (done : Does n (.call rule) s b t)
    (tidy : s.Tidy) (kept : Tree.ShapedAll Climbs s.built) : Tree.ShapedAll Climbs t.built := by
  induction n generalizing rule s t b with
  | zero => cases done
  | succ n ih =>
    cases done with
    | call body =>
      cases rule with
      | binary least => exact shapedAll_binary ih body tidy kept
      | _ =>
        exact body.shapedAll tidy_invariant (fun _ => climbs_of_precedence) ih
          (Rule.buildsOnly_of_ne_binary nofun) tidy kept

end Grammar

theorem Kind.precedence_eq_none {kind : Kind} (tight : 6 ≤ kind.tightness) : kind.precedence? = none := by
  cases binary : kind.precedence? with
  | none => rfl
  | some p =>
    obtain ⟨level, found, rfl⟩ := Option.map_eq_some_iff.mp binary
    have low := (Grammar.operatorLevels_spec (List.mem_of_find?_eq_some found)).1
    rw [tightness_of_precedence binary] at tight
    omega

namespace Parse

open Grammar

theorem tightOperand (text : String) : (ofText text).tree.Shaped TightOperand :=
  ⟨⟨nofun, nofun⟩, (layout_sound.ofTokens layout_passes (Or.inl rfl)).1⟩

theorem climbs (text : String) : (ofText text).tree.Shaped Climbs := by
  obtain ⟨depth, answer, done⟩ := does_finalState (Token.scan text)
  refine ⟨climbs_of_precedence rfl _, shapedAll_flush ?_⟩
  exact shapedAll_call done (Cursor.Tidy.ofTokens _) trivial

end Parse

namespace Node

/-- A node has one significant token of its own, an operator of a precedence that makes nodes of its
kind. To its left stands nothing that binds less tightly, and to its right only what binds more tightly. -/
def HasOperator (n : Node) (p : Nat) : Prop :=
  ∃ before op after, n.elements = before ++ .leaf op :: after ∧
    (∀ l, .leaf l ∈ before ++ after → l.kind.isTrivia = true) ∧
    Grammar.binaryKind? op.kind = some (p, n.kind) ∧
    (∀ c q, .node c ∈ before → c.kind.precedence? = some q → p ≤ q) ∧
    ∀ c q, .node c ∈ after → c.kind.precedence? = some q → p < q

/-- Operators and what stands behind operands bind as tightly as they should. -/
structure RespectsPrecedence (n : Node) : Prop where
  binary {p : Nat} : n.kind.precedence? = some p → n.HasOperator p
  unary : n.kind = .unaryExpr → ∀ c ∈ n.children, c.kind.precedence? = none
  /-- Before the dot, bracket or arguments of a postfix expression stands no unary or binary one. -/
  operand : n.kind.isPostfix = true → ∀ c, .node c ∈ n.elements.takeWhile (!·.kind.endsOperand) →
    c.kind ≠ .unaryExpr ∧ c.kind.precedence? = none

theorem le_precedence {least q : Nat} {elements : List Element} {c : Node}
    (tight : Grammar.Tight least (elements.map Element.tree)) (member : .node c ∈ elements)
    (binary : c.kind.precedence? = some q) : least ≤ q :=
  Kind.tightness_of_precedence binary ▸ tight c.kind c.trees (List.mem_map_of_mem member)

theorem isTrivia_of_sparse {elements : List Element} {l : Leaf}
    (sparse : Grammar.Sparse (elements.map Element.tree)) (member : .leaf l ∈ elements) :
    l.kind.isTrivia = true :=
  sparse l.kind l.text (List.mem_map_of_mem member)

theorem hasOperator_of_climbs {n : Node} (climbs : Grammar.Climbs n.kind n.trees) {p : Nat}
    (binary : n.kind.precedence? = some p) : n.HasOperator p := by
  obtain ⟨left, op, text, right, trees, known, sparse, sparse', tight, tight'⟩ := climbs p binary
  rw [← map_tree_elements] at trees
  obtain ⟨before, rest, elements, rfl, split⟩ := List.map_eq_append_iff.mp trees
  obtain ⟨mark, after, rfl, isToken, rfl⟩ := List.map_eq_cons_iff.mp split
  cases mark with
  | node c => cases isToken
  | leaf l =>
    cases isToken
    refine ⟨before, l, after, elements, fun m member => ?_, known, fun c q => le_precedence tight,
      fun c q => le_precedence tight'⟩
    exact (List.mem_append.mp member).elim (isTrivia_of_sparse sparse) (isTrivia_of_sparse sparse')

theorem takeWhile_elements (n : Node) (p : Kind → Bool) :
    (n.elements.takeWhile (p ·.kind)).map Element.tree = n.trees.takeWhile (p ·.kind) := by
  rw [← map_tree_elements n, List.takeWhile_map]
  congr 2
  funext e
  cases e <;> rfl

end Node

/-- In the tree of any text, operators bind as tightly as their precedences say. -/
theorem Parse.respectsPrecedence (text : String) :
    ∀ n ∈ (Node.root (ofText text).tree).descendants, n.RespectsPrecedence := by
  intro n member
  have climbs := Node.shape_of_mem_descendants (Parse.climbs text) member
  obtain ⟨unary, operand⟩ := Node.shape_of_mem_descendants (Parse.tightOperand text) member
  refine ⟨Node.hasOperator_of_climbs climbs, fun isUnary c child => ?_, fun isPostfix c among => ?_⟩
  · have tree := (Node.mem_elementsIn (Node.mem_children.mp child)).1
    exact Kind.precedence_eq_none (unary isUnary c.kind c.trees tree)
  · have tree : .node c.kind c.trees ∈ n.trees.takeWhile (!·.kind.endsOperand) := by
      rw [← Node.takeWhile_elements n (!·.endsOperand)]
      exact List.mem_map_of_mem among
    have tight := operand isPostfix c.kind c.trees tree
    refine ⟨fun isUnary => ?_, Kind.precedence_eq_none (Nat.le_of_succ_le tight)⟩
    rw [isUnary] at tight
    exact absurd tight (by decide)

/-- Two operators of one precedence with one that binds more tightly between them. -/
theorem Parse.respectsPrecedence_chain :
    ∃ n ∈ (Node.root (ofText "package p; var x = a - b * -c.d - e").tree).descendants,
      n.kind = .addExpr ∧ n.children.map Node.kind = [.addExpr, .referenceExpr] ∧ n.HasOperator 4 := by
  have respected := respectsPrecedence "package p; var x = a - b * -c.d - e"
  have outer : ((Node.root (ofText "package p; var x = a - b * -c.d - e").tree).descendants.find?
      (·.kind == .addExpr)).map (·.children.map Node.kind) = some [.addExpr, .referenceExpr] := by
    decide +kernel
  generalize (Node.root (ofText "package p; var x = a - b * -c.d - e").tree).descendants = nodes at respected outer ⊢
  obtain ⟨n, found, children⟩ := Option.map_eq_some_iff.mp outer
  have member := List.mem_of_find?_eq_some found
  have kind : n.kind = .addExpr := beq_iff_eq.mp (List.find?_some (p := fun m : Node => m.kind == .addExpr) found)
  exact ⟨n, member, kind, children, (respected n member).binary (by rw [kind]; rfl)⟩

end GoNav
