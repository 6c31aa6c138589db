import GoNav.Proofs.Precedence
import Mathlib.Data.List.DropRight

namespace GoNav

/-! Where a node goes on behind its first child -/

/-- The nodes of expressions that go on behind an operand: with something that stands behind it, or with a
binary operator. -/
def Kind.isContinued (kind : Kind) : Bool :=
  kind.isPostfix || kind.precedence?.isSome

namespace Leaf

def hasNewline (l : Leaf) : Bool :=
  l.text.toList.contains '\n'

/-- The first significant token of a list, behind the blanks and comments before it. -/
def firstSignificant? : List Leaf → Option (List Leaf × Leaf)
  | [] => none
  | l :: rest =>
    if l.kind.isTrivia then (firstSignificant? rest).map fun found => (l :: found.1, found.2) else some ([], l)

theorem firstSignificant?_eq_some {leaves gap : List Leaf} {l : Leaf}
    (found : firstSignificant? leaves = some (gap, l)) :
    ∃ after, leaves = gap ++ l :: after ∧ (∀ t ∈ gap, t.kind.isTrivia = true) ∧ l.kind.isTrivia = false := by
  induction leaves generalizing gap with
  | nil => cases found
  | cons first rest ih =>
    rw [firstSignificant?] at found
    split at found
    · rename_i trivia
      obtain ⟨⟨inner, m⟩, later, same⟩ := Option.map_eq_some_iff.mp found
      cases same
      obtain ⟨after, rfl, blanks, significant⟩ := ih later
      refine ⟨after, rfl, fun t member => ?_, significant⟩
      rcases List.mem_cons.mp member with rfl | behind
      · exact trivia
      · exact blanks t behind
    · rename_i significant
      cases found
      exact ⟨rest, rfl, by simp, by simpa using significant⟩

end Leaf

/-- Two significant tokens and the blanks and comments between them. -/
structure Joint where
  last : Leaf
  gap : List Leaf
  next : Leaf

/-- The place where a node goes on behind its first child, if that is a node with a significant token and a
significant token follows: the last one of the child and the next one. -/
def Node.joint? (n : Node) : Option Joint :=
  match n.elements with
  | .node first :: rest =>
    (Leaf.firstSignificant? first.leaves.reverse).bind fun back =>
      (Leaf.firstSignificant? (rest.flatMap Element.leaves)).map fun ahead =>
        ⟨back.2, back.1.reverse ++ ahead.1, ahead.2⟩
  | _ => none

theorem Node.joint?_eq_some {n : Node} {j : Joint} (found : n.joint? = some j) :
    ∃ first rest before inside outside after, n.elements = .node first :: rest ∧
      first.leaves = before ++ j.last :: inside ∧ rest.flatMap Element.leaves = outside ++ j.next :: after ∧
      j.gap = inside ++ outside ∧ (∀ t ∈ j.gap, t.kind.isTrivia = true) ∧ j.last.kind.isTrivia = false ∧
      j.next.kind.isTrivia = false := by
  unfold joint? at found
  split at found
  · rename_i first rest elements
    obtain ⟨⟨back, last⟩, behind, further⟩ := Option.bind_eq_some_iff.mp found
    obtain ⟨⟨ahead, next⟩, before, rfl⟩ := Option.map_eq_some_iff.mp further
    obtain ⟨old, leaves, trivia, significant⟩ := Leaf.firstSignificant?_eq_some behind
    obtain ⟨after, leaves', trivia', significant'⟩ := Leaf.firstSignificant?_eq_some before
    refine ⟨first, rest, old.reverse, back.reverse, ahead, after, elements, ?_, leaves', rfl, ?_, significant,
      significant'⟩
    · rw [← List.reverse_reverse first.leaves, leaves]
      simp
    · intro t member
      rcases List.mem_append.mp member with inside | outside
      · exact trivia t (List.mem_reverse.mp inside)
      · exact trivia' t outside
  · cases found

namespace Grammar

/-! What a parse remembers of the tokens behind it -/

def isBlank (t : Kind × String) : Bool :=
  t.1.isTrivia

theorem isBlank_written {tokens : List Token} (trivia : ∀ t ∈ tokens, t.kind.isTrivia = true) :
    ∀ t ∈ tokens.map Token.written, isBlank t = true := by
  intro t member
  obtain ⟨token, among, rfl⟩ := List.mem_map.mp member
  exact trivia token among

theorem rtakeWhile_append {α : Type} {p : α → Bool} (past : List α) {more : List α}
    (all : ∀ t ∈ more, p t = true) :
    (past ++ more).rtakeWhile p = past.rtakeWhile p ++ more := by
  rw [List.rtakeWhile, List.reverse_append, List.takeWhile_append_of_pos (by simpa using all)]
  simp [List.rtakeWhile]

theorem rdropWhile_append {α : Type} {p : α → Bool} (past : List α) {more : List α}
    (all : ∀ t ∈ more, p t = true) :
    (past ++ more).rdropWhile p = past.rdropWhile p := by
  rw [List.rdropWhile, List.reverse_append, List.dropWhile_append_of_pos (by simpa using all)]
  rfl

/-- Where a parse stands behind the tokens of `past` and those that are built: it remembers the last
significant one of these, and the blanks and comments behind it are the first of those before the next one. -/
structure Stands (past : List (Kind × String)) (s : State) : Prop where
  tidy : s.Tidy
  before : s.before = ((past ++ Tree.leavesOf s.built).rdropWhile isBlank).getLast?.map Prod.fst
  gap : (past ++ Tree.leavesOf s.built).rtakeWhile isBlank ++ s.pending.map Token.written =
    (Cursor.leadOf s.ahead s.trailing).map Token.written

namespace Stands

variable {past : List (Kind × String)} {s t : State}

theorem flush (stands : Stands past s) : Stands past s.flush := by
  have blanks := isBlank_written stands.tidy.pending
  have leaves : past ++ Tree.leavesOf s.flush.built =
      past ++ Tree.leavesOf s.built ++ s.pending.map Token.written := by
    rw [State.flush, Tree.leavesOf_append, State.leavesOf_leaf, List.append_assoc]
  refine ⟨stands.tidy.skip, ?_, ?_⟩
  · rw [leaves, rdropWhile_append _ blanks]
    exact stands.before
  · rw [leaves, rtakeWhile_append _ blanks, stands.gap]
    simp [State.flush, Cursor.skip]

theorem inside (stands : Stands past s) : Stands (past ++ Tree.leavesOf s.flush.built) s.inside := by
  have same : past ++ Tree.leavesOf s.flush.built ++ Tree.leavesOf s.inside.built =
      past ++ Tree.leavesOf s.flush.built := List.append_nil _
  exact ⟨stands.tidy.skip, by rw [same]; exact stands.flush.before, by rw [same]; exact stands.flush.gap⟩

theorem resume (kind : Option Kind) (inner : Stands (past ++ Tree.leavesOf s.flush.built) t) :
    Stands past (s.resume kind t) := by
  have leaves : past ++ Tree.leavesOf (s.resume kind t).built =
      past ++ Tree.leavesOf s.flush.built ++ Tree.leavesOf t.built := by
    rw [State.resume, Tree.leavesOf_append, List.append_assoc]
    cases kind <;> simp [gather, Tree.leavesOf, Tree.leaves]
  exact ⟨inner.tidy, by rw [leaves]; exact inner.before, by rw [leaves]; exact inner.gap⟩

theorem bump (stands : Stands past s) : Stands past s.bump := by
  cases ahead : s.ahead with
  | nil =>
    have same : s.bump = s.flush := by simp [State.bump, State.flush, Cursor.advance, Cursor.upcoming, ahead]
    exact same ▸ stands.flush
  | cons l rest =>
    have significant : isBlank l.token.written = false := stands.tidy.token l (by simp [ahead])
    have leaves : past ++ Tree.leavesOf s.bump.built =
        past ++ Tree.leavesOf s.built ++ s.pending.map Token.written ++ [l.token.written] := by
      rw [State.bump, Tree.leavesOf_append, State.leavesOf_leaf]
      simp [Cursor.upcoming, ahead]
    refine ⟨stands.tidy.advance, ?_, ?_⟩
    · rw [leaves, List.rdropWhile_concat_neg _ _ _ (by simp [significant])]
      simp [State.bump, Cursor.advance, ahead, Token.written, Lexeme.kind]
    · rw [leaves, List.rtakeWhile_concat_neg _ _ _ (by simp [significant])]
      simp [State.bump, Cursor.advance, ahead]

theorem ofTokens (tokens : List Token) : Stands [] (State.ofTokens tokens) :=
  ⟨Cursor.Tidy.ofTokens tokens, rfl, rfl⟩

end Stands

theorem stands_stable : Stable fun s t => ∀ past, Stands past s → Stands past t where
  refl _ _ stands := stands
  trans first second past stands := second past (first past stands)
  bump _ _ stands := stands.bump
  report _ _ _ stands := ⟨tidy_stable.report _ _ stands.tidy, stands.before, stands.gap⟩
  node kind inner _ stands := (inner _ stands.inside).resume (some kind)
  marked inner _ stands := (inner _ stands.inside).resume none
  wrap kind inner past stands := by
    have done := inner past stands
    have leaves (trees : List Tree) : Tree.leavesOf [.node kind trees] = Tree.leavesOf trees := by
      simp [Tree.leavesOf, Tree.leaves]
    exact ⟨done.tidy, by simpa only [leaves] using done.before, by simpa only [leaves] using done.gap⟩
  header within inner past stands := by
    have done := inner past ⟨stands.tidy.inHeader within, stands.before, stands.gap⟩
    exact ⟨done.tidy.inHeader _, done.before, done.gap⟩

theorem stands_invariant : Invariant fun s => ∃ past, Stands past s where
  does done begun := by
    obtain ⟨past, stands⟩ := begun
    exact ⟨past, stands_stable.does done past stands⟩
  inside begun := by
    obtain ⟨past, stands⟩ := begun
    exact ⟨_, stands.inside⟩
  header within begun := by
    obtain ⟨past, stands⟩ := begun
    exact ⟨past, stands.tidy.inHeader within, stands.before, stands.gap⟩

/-! How much an operand is -/

/-- There are only blanks and comments. -/
def Blank (trees : List Tree) : Prop :=
  ∀ t ∈ trees, ∃ kind text, t = .token kind text ∧ kind.isTrivia = true

theorem Blank.append {left right : List Tree} (before : Blank left) (behind : Blank right) : Blank (left ++ right) :=
  fun t member => (List.mem_append.mp member).elim (before t) (behind t)

theorem Blank.isBlank_leaves {trees : List Tree} (blank : Blank trees) :
    ∀ t ∈ Tree.leavesOf trees, isBlank t = true := by
  induction trees with
  | nil => simp [Tree.leavesOf]
  | cons first rest ih =>
    obtain ⟨kind, text, rfl, trivia⟩ := blank first (List.mem_cons_self ..)
    intro t member
    rcases List.mem_cons.mp member with rfl | later
    · exact trivia
    · exact ih (fun u among => blank u (List.mem_cons_of_mem _ among)) t later

/-- There is one node, and otherwise only blanks and comments. -/
def Alone (trees : List Tree) : Prop :=
  ∃ left kind children right, trees = left ++ .node kind children :: right ∧ Blank left ∧ Blank right

/-- How many nodes there may be among some trees: none, at most one, or any number; only in the last case there
may be significant tokens too. -/
inductive Extent where
  | none
  | one
  | any
  deriving DecidableEq

namespace Extent

def Bounds (trees : List Tree) : Extent → Prop
  | .none => Blank trees
  | .one => Blank trees ∨ Alone trees
  | .any => True

def append : Extent → Extent → Extent
  | .none, d => d
  | d, .none => d
  | _, _ => .any

def join : Extent → Extent → Extent
  | .any, _ | _, .any => .any
  | .none, .none => .none
  | _, _ => .one

theorem Bounds.append {d d' : Extent} {left right : List Tree} (before : d.Bounds left) (behind : d'.Bounds right) :
    (d.append d').Bounds (left ++ right) := by
  cases d with
  | none =>
    cases d' with
    | none => exact Blank.append before behind
    | one =>
      rcases behind with blank | ⟨inner, kind, children, outer, rfl, first, last⟩
      · exact .inl (Blank.append before blank)
      · exact .inr ⟨left ++ inner, kind, children, outer, by simp, Blank.append before first, last⟩
    | any => trivial
  | one =>
    cases d' with
    | none =>
      rcases before with blank | ⟨inner, kind, children, outer, rfl, first, last⟩
      · exact .inl (blank.append behind)
      · exact .inr ⟨inner, kind, children, outer ++ right, by simp, first, last.append behind⟩
    | one | any => trivial
  | any => cases d' <;> trivial

theorem Bounds.join {d d' : Extent} {trees : List Tree} (either : d.Bounds trees ∨ d'.Bounds trees) :
    (d.join d').Bounds trees := by
  cases d with
  | any => trivial
  | none =>
    cases d' with
    | none => exact either.elim id id
    | one => exact either.elim .inl id
    | any => trivial
  | one =>
    cases d' with
    | none => exact either.elim id .inl
    | one => exact either.elim id id
    | any => trivial

end Extent

/-- The account of how many nodes rules add. -/
def extents : Sketch Extent where
  lenient := true
  nothing _ := .none
  bump _ _ := some .any
  node _ _ := some .one
  append d d' := some (d.append d')
  join d d' := some (d.join d')
  start _ := .none
  adds
    | .operand | .primary | .unary | .typ | .typeName | .structType | .interfaceType | .argumentList => .one
    | _ => .any

theorem extents_sound : extents.Sound fun d trees => d.Bounds trees where
  nothing _ := fun _ member => absurd member List.not_mem_nil
  start _ := fun _ member => absurd member List.not_mem_nil
  blank {d trees t} described trivia := by
    have blank : Extent.none.Bounds [State.leaf t] := fun u member =>
      ⟨t.kind, t.text, List.mem_singleton.mp member, trivia⟩
    have fit := described.append blank
    cases d <;> exact fit
  bump {d d' trees t first} _ _ next := by
    cases next
    trivial
  atEnd {d d' trees} _ next := by
    cases next
    trivial
  node {d d' trees kind} _ next := by
    cases next
    exact .inr ⟨[], kind, trees, [], rfl, fun _ member => absurd member List.not_mem_nil,
      fun _ member => absurd member List.not_mem_nil⟩
  append {d d' d'' left right} before behind next := by
    cases next
    exact Extent.Bounds.append before behind
  join {d d' d'' trees} joined described := by
    cases joined
    exact .join described

theorem extents_passes (rule : Rule) : extents.account.passes rule = true :=
  Account.passes_all (by decide +kernel) (fun _ => ⟨rfl, rfl⟩) rule

/-! Expressions do not go on behind the end of a statement -/

/-- Where an expression goes on behind its first part, no line break stands behind a token that can end a
statement. -/
def Unbroken (kind : Kind) (children : List Tree) : Prop :=
  kind.isContinued = true → ∀ first inner rest, children = .node first inner :: rest →
    ∀ before last inside outside next after, Tree.leavesOf inner = before ++ last :: inside →
      Tree.leavesOf rest = outside ++ next :: after → (∀ t ∈ inside ++ outside, isBlank t = true) →
        isBlank last = false → isBlank next = false → last.1.endsStatement = true →
          ∀ t ∈ inside ++ outside, t.2.toList.contains '\n' = false

theorem unbroken_of_not {kind : Kind} (other : (!kind.isContinued) = true) (children : List Tree) :
    Unbroken kind children := by
  intro continued
  rw [continued] at other
  cases other

theorem unbroken_leaves (kind : Kind) (tokens : List Token) : Unbroken kind (tokens.map State.leaf) := by
  intro _ first inner rest children
  cases tokens <;> cases children

/-- Before the first significant token the same blanks stand, however the tokens are split there. -/
theorem blanks_unique {left right rest rest' : List (Kind × String)} {m m' : Kind × String}
    (same : left ++ m :: rest = right ++ m' :: rest') (blanks : ∀ t ∈ left, isBlank t = true)
    (blanks' : ∀ t ∈ right, isBlank t = true) (significant : isBlank m = false) (significant' : isBlank m' = false) :
    left = right := by
  have taken := congrArg (List.takeWhile isBlank) same
  rw [List.takeWhile_append_of_pos blanks, List.takeWhile_append_of_pos blanks'] at taken
  simpa [List.takeWhile_cons, significant, significant'] using taken

theorem exists_ahead {s : State} (further : s.view.implicitEnd = false) : ∃ l rest, s.ahead = l :: rest := by
  cases ahead : s.ahead with
  | nil => simp [View.implicitEnd, Cursor.view, ahead] at further
  | cons l rest => exact ⟨l, rest, rfl⟩

/-- Where no statement ends behind a token that could end one, no line break stands before the next one. -/
theorem not_hasNewline {s : State} {l : Lexeme} {rest : List Lexeme} {kind : Kind}
    (further : s.view.implicitEnd = false) (ahead : s.ahead = l :: rest) (before : s.before = some kind)
    (ends : kind.endsStatement = true) : l.lead.any Token.hasNewline = false := by
  simpa [View.implicitEnd, View.newlineAt, Cursor.view, ahead, before, ends, Lexeme.afterNewline] using further

/-- What is added starts with the blanks and comments ahead and the next token, as far as it goes. -/
theorem Reads.exists_upcoming {s u : State} {l : Lexeme} {rest : List Lexeme} {added : List Tree}
    (reads : Reads s u) (built : u.built = s.built ++ added) (ahead : s.ahead = l :: rest) :
    ∃ unread more, Tree.leavesOf added ++ unread = s.pending.map Token.written ++ l.token.written :: more := by
  have same := reads.contents
  rw [State.contents, State.contents, built, Tree.leavesOf_append, List.append_assoc,
    List.append_cancel_left_eq] at same
  refine ⟨u.unread.map Token.written, (rest.flatMap Lexeme.tokens ++ s.trailing).map Token.written, ?_⟩
  rw [same, Cursor.unread, ahead, List.map_append, List.map_cons]

/-- Where no statement ends, whatever goes on behind a node goes on without such a line break. -/
theorem unbroken_of_alone {n : Nat} {inner : Action} {s u : State} {b : Bool} {past : List (Kind × String)}
    (kind : Kind) (done : Does n inner s b u) (wraps : inner.wrapsMarked false = true) (stands : Stands past s)
    (further : s.view.implicitEnd = false) (alone : Alone s.built) : Unbroken kind u.built := by
  obtain ⟨left, first, trees, right, split, blankLeft, blankRight⟩ := alone
  obtain ⟨added, built⟩ := done.prefix_built wraps
  intro _ own children rest whole before last inside outside next after leaves leaves' blanks significant
    significant' ends
  -- The first child is the node that was there before.
  rw [← built, split] at whole
  obtain rfl : left = [] := by
    cases left with
    | nil => rfl
    | cons t more =>
      obtain ⟨_, _, rfl, _⟩ := blankLeft t (List.mem_cons_self ..)
      cases whole
  obtain ⟨⟨rfl, rfl⟩, rfl⟩ : (first = own ∧ trees = children) ∧ right ++ added = rest := by simpa using whole
  obtain ⟨l, later, ahead⟩ := exists_ahead further
  have trivia := blankRight.isBlank_leaves
  have behind : past ++ Tree.leavesOf s.built = past ++ before ++ [last] ++ (inside ++ Tree.leavesOf right) := by
    simp [split, Tree.leavesOf, Tree.leaves, leaves]
  have blanksBehind : ∀ t ∈ inside ++ Tree.leavesOf right, isBlank t = true := by
    intro t member
    rcases List.mem_append.mp member with inner | outer
    · exact blanks t (List.mem_append_left _ inner)
    · exact trivia t outer
  have remembered : s.before = some last.1 := by
    rw [stands.before, behind, rdropWhile_append _ blanksBehind,
      List.rdropWhile_concat_neg _ _ _ (by simp [significant])]
    simp
  have lead : inside ++ Tree.leavesOf right ++ s.pending.map Token.written = l.lead.map Token.written := by
    have gap := stands.gap
    rw [behind, rtakeWhile_append _ blanksBehind, List.rtakeWhile_concat_neg _ _ _ (by simp [significant])] at gap
    simpa [Cursor.leadOf, ahead] using gap
  -- Up to the next significant token only what was pending is added.
  have between : outside = Tree.leavesOf right ++ s.pending.map Token.written := by
    obtain ⟨unread, more, read⟩ := (reads_stable.does done).exists_upcoming built.symm ahead
    rw [Tree.leavesOf_append] at leaves'
    have same : outside ++ next :: (after ++ unread) =
        Tree.leavesOf right ++ s.pending.map Token.written ++ l.token.written :: more := by
      rw [List.append_assoc, ← read, ← List.append_assoc, leaves', List.append_assoc, List.cons_append]
    refine blanks_unique same (fun t member => blanks t (List.mem_append_right _ member)) ?_ significant'
      (stands.tidy.token l (by simp [ahead]))
    intro t member
    rcases List.mem_append.mp member with inner | pending
    · exact trivia t inner
    · exact isBlank_written stands.tidy.pending t pending
  intro t member
  rw [between, ← List.append_assoc, lead] at member
  obtain ⟨token, among, rfl⟩ := List.mem_map.mp member
  have single := List.any_eq_false.mp (not_hasNewline further ahead remembered ends) token among
  have blank := stands.tidy.lead l (by simp [ahead]) token among
  simpa [Token.hasNewline, Token.written, blank] using single

theorem unbroken_of_tokens {kind : Kind} {tokens more : List Tree}
    (all : ∀ t ∈ tokens, ∃ kind text, t = .token kind text) (some : tokens ≠ []) :
    Unbroken kind (tokens ++ more) := by
  intro _ first inner rest children
  cases tokens with
  | nil => exact absurd rfl some
  | cons t others =>
    obtain ⟨_, _, rfl⟩ := all t (List.mem_cons_self ..)
    cases children

/-- How an expression goes on: with a token of its own, or with arguments. -/
inductive Action.Continues : Action → Prop
  | bump (rest : Action) (wraps : rest.wrapsMarked false = true) : Continues (.seq .bump rest)
  | arguments : Continues (.call .argumentList)

theorem Action.Continues.wraps {a : Action} (continues : a.Continues) : a.wrapsMarked false = true := by
  cases continues with
  | bump rest wraps => exact wraps
  | arguments => rfl

/-- Where the operand is missing, an expression starts with the token that goes on with it, or it is its
arguments. -/
theorem unbroken_of_blank {n : Nat} {inner : Action} {s u : State} {b : Bool} (kind : Kind)
    (done : Does n inner s b u) (continues : inner.Continues) (further : s.view.implicitEnd = false)
    (blank : Blank s.built) : Unbroken kind u.built := by
  have token : ∀ t ∈ s.built, ∃ kind text, t = .token kind text := fun t member =>
    (blank t member).imp fun _ found => found.imp fun _ both => both.1
  have leaf (tokens : List Token) : ∀ t ∈ tokens.map State.leaf, ∃ kind text, t = .token kind text := by
    intro t member
    obtain ⟨l, _, rfl⟩ := List.mem_map.mp member
    exact ⟨_, _, rfl⟩
  cases continues with
  | bump rest wraps =>
    cases done with
    | seq bumped behind =>
      cases bumped
      obtain ⟨more, built⟩ := behind.prefix_built wraps
      obtain ⟨l, later, ahead⟩ := exists_ahead further
      rw [← built]
      refine unbroken_of_tokens (fun t member => ?_) ?_
      · exact (List.mem_append.mp member).elim (token t) (leaf _ t)
      · simp [State.bump, Cursor.upcoming, ahead]
  | arguments =>
    cases done with
    | call body =>
      cases body with
      | node _ inner =>
        by_cases empty : s.flush.built = []
        · intro _ first trees rest children before last inside outside next after _ leaves
          rw [State.resume, empty] at children
          cases children
          simp [Tree.leavesOf] at leaves
        · refine unbroken_of_tokens (fun t member => ?_) empty
          exact (List.mem_append.mp member).elim (token t) (leaf _ t)

/-- What is true of an expression as far as it goes. -/
structure Continuing (s : State) : Prop where
  stands : ∃ past, Stands past s
  extent : Extent.one.Bounds s.built
  unbroken : Tree.ShapedAll Unbroken s.built

section

variable {n : Nat}
  (calls : ∀ {rule s b t}, Does n (.call rule) s b t → (∃ past, Stands past s) →
    Tree.ShapedAll Unbroken s.built → Tree.ShapedAll Unbroken t.built)
include calls

theorem Does.unbroken {a : Action} {s t : State} {b : Bool} (done : Does n a s b t)
    (builds : a.buildsOnly (!·.isContinued) = true) (begun : ∃ past, Stands past s)
    (kept : Tree.ShapedAll Unbroken s.built) : Tree.ShapedAll Unbroken t.built :=
  done.shapedAll stands_invariant (fun _ => unbroken_of_not) calls builds begun kept

/-- An expression goes on where no statement ends. -/
theorem Continuing.round {kind : Kind} {inner : Action} {s t : State} {b : Bool} (continuing : Continuing s)
    (further : s.view.implicitEnd = false) (done : Does n (.seq (.wrap kind inner) .yes) s b t)
    (continues : inner.Continues) (builds : inner.buildsOnly (!·.isContinued) = true) : Continuing t := by
  obtain ⟨past, stands⟩ := continuing.stands
  have after := stands_stable.does done past stands
  cases done with
  | seq wrapped last =>
    cases last
    cases wrapped with
    | wrap _ made =>
      refine ⟨⟨past, after⟩, .inr ⟨[], kind, _, [], rfl, by simp [Blank], by simp [Blank]⟩,
        ⟨⟨?_, made.unbroken calls builds ⟨past, stands⟩ continuing.unbroken⟩, trivial⟩⟩
      rcases continuing.extent with blank | alone
      · exact unbroken_of_blank kind made continues further blank
      · exact unbroken_of_alone kind made continues.wraps stands further alone

theorem continuing_call {rule : Rule} {s t : State} {b : Bool} (done : Does n (.call rule) s.inside b t)
    (single : extents.adds rule = .one) (free : rule.isGuarded = false) (begun : ∃ past, Stands past s) :
    Continuing t := by
  obtain ⟨past, stands⟩ := begun
  obtain ⟨added, built, bounds⟩ := extents_sound.call extents_passes done free stands.inside.tidy (.inl rfl)
  have alone : t.built = added := built
  exact ⟨⟨_, stands_stable.does done _ stands.inside⟩, alone ▸ single ▸ bounds, calls done ⟨_, stands.inside⟩ trivial⟩

theorem unbroken_primary {s t : State} {b : Bool} (done : Does n Rule.primary.body s b t)
    (begun : ∃ past, Stands past s) (kept : Tree.ShapedAll Unbroken s.built) : Tree.ShapedAll Unbroken t.built := by
  cases done with
  | marked inner =>
    cases inner with
    | seq operand loop =>
      refine shapedAll_append (shapedAll_flush kept) (Continuing.unbroken (loop.of_loop ?_ ?_))
      · intro s b t continuing round
        rcases round.of_branch with ⟨_, stopped⟩ | ⟨further, round⟩
        · cases stopped
          exact continuing
        · rcases round.of_choose with ⟨way, member, _, gone⟩ | ⟨_, stopped⟩
          · simp only [List.mem_cons, List.not_mem_nil, or_false] at member
            rcases member with rfl | rfl | rfl | rfl | rfl
            · exact continuing.round calls further gone (.bump _ rfl) rfl
            · exact continuing.round calls further gone (.bump _ rfl) rfl
            · exact continuing.round calls further gone .arguments rfl
            · exact continuing.round calls further gone (.bump _ rfl) rfl
            · exact continuing.round calls further gone (.bump _ rfl) rfl
          · cases stopped
            exact continuing
      · exact continuing_call calls operand rfl rfl begun

theorem unbroken_binary {least : Nat} {s t : State} {b : Bool} (done : Does n (Rule.binary least).body s b t)
    (begun : ∃ past, Stands past s) (kept : Tree.ShapedAll Unbroken s.built) : Tree.ShapedAll Unbroken t.built := by
  cases done with
  | marked inner =>
    cases inner with
    | seq unary loop =>
      refine shapedAll_append (shapedAll_flush kept) (Continuing.unbroken (loop.of_loop ?_ ?_))
      · intro s b t continuing round
        rcases Does.of_climb round with ⟨_, level, _, _, next, c, u, right, rfl⟩ | ⟨_, rfl, _⟩
        · exact continuing.round calls next.1 (.seq (.wrap level.kind (.seq (.bump s) right)) (.answer true _))
            (.bump _ rfl) rfl
        · exact continuing
      · exact continuing_call calls unary rfl rfl begun

/-- A name that is an operand by itself is one token. -/
theorem unbroken_operand {s t : State} {b : Bool} (done : Does n Rule.operand.body s b t)
    (begun : ∃ past, Stands past s) (kept : Tree.ShapedAll Unbroken s.built) : Tree.ShapedAll Unbroken t.built := by
  refine done.of_choose_checked (fun gone builds => gone.unbroken calls builds begun kept)
    (fun way member _ gone => ?_) rfl
  cases List.mem_singleton.mp member
  cases gone with
  | node _ bumped =>
    cases bumped
    exact shapedAll_append (shapedAll_flush kept) ⟨⟨unbroken_leaves _ _, shapedAll_leaves _⟩, trivial⟩

end

theorem Rule.buildsOnly_of_not_continued {rule : Rule} (primary : rule ≠ .primary) (operand : rule ≠ .operand)
    (binary : ∀ least, rule ≠ .binary least) : rule.body.buildsOnly (!·.isContinued) = true := by
  cases rule with
  | primary => exact absurd rfl primary
  | operand => exact absurd rfl operand
  | binary least => exact absurd rfl (binary least)
  | paramDecl named => cases named <;> rfl
  | _ => rfl

theorem unbroken_call {n : Nat} {rule : Rule} {s t : State} {b : Bool} (done : Does n (.call rule) s b t)
    (begun : ∃ past, Stands past s) (kept : Tree.ShapedAll Unbroken s.built) : Tree.ShapedAll Unbroken t.built := by
  induction n generalizing rule s t b with
  | zero => cases done
  | succ n ih =>
    cases done with
    | call body =>
      cases rule with
      | primary => exact unbroken_primary ih body begun kept
      | operand => exact unbroken_operand ih body begun kept
      | binary least => exact unbroken_binary ih body begun kept
      | _ =>
        exact body.unbroken ih (Rule.buildsOnly_of_not_continued (by simp) (by simp) (by simp)) begun kept

end Grammar

theorem Element.leavesOf_map_tree (elements : List Element) :
    Tree.leavesOf (elements.map Element.tree) = (elements.flatMap Element.leaves).map Leaf.written := by
  induction elements with
  | nil => rfl
  | cons e rest ih =>
    have own : e.tree.leaves = e.leaves.map Leaf.written := by
      cases e with
      | node n => exact n.leaves_written.symm
      | leaf l => rfl
    rw [List.map_cons, Tree.leavesOf, List.flatMap_cons, List.map_append, own, ih]

theorem Parse.unbroken (text : String) : (ofText text).tree.Shaped Grammar.Unbroken := by
  obtain ⟨depth, answer, done⟩ := does_finalState (Token.scan text)
  refine ⟨Grammar.unbroken_of_not rfl _, Grammar.shapedAll_flush ?_⟩
  exact Grammar.unbroken_call done ⟨[], .ofTokens _⟩ trivial

/-- No expression goes on where a statement has ended. In the tree of any text, where a selector, call, index,
slice, type assertion or binary expression goes on behind its first operand, and the last token of this can end
a statement, there is no line break before the next token. -/
theorem Parse.expression_unbroken {text : String} {n : Node} {j : Joint}
    (member : n ∈ (Node.root (ofText text).tree).descendants)
    (kind : n.kind.isPostfix = true ∨ n.kind.precedence?.isSome = true) (joint : n.joint? = some j)
    (ends : j.last.kind.endsStatement = true) : ∀ t ∈ j.gap, t.hasNewline = false := by
  obtain ⟨first, rest, before, inside, outside, after, elements, leaves, leaves', gap, blanks, significant,
    significant'⟩ := Node.joint?_eq_some joint
  have shape := Node.shape_of_mem_descendants (Parse.unbroken text) member (by simpa [Kind.isContinued] using kind)
  have trees : n.trees = .node first.kind first.trees :: rest.map Element.tree := by
    rw [← Node.map_tree_elements, elements]
    rfl
  have inner : Tree.leavesOf first.trees =
      before.map Leaf.written ++ j.last.written :: inside.map Leaf.written := by
    rw [← Node.leaves_written, leaves]
    simp
  have outer : Tree.leavesOf (rest.map Element.tree) =
      outside.map Leaf.written ++ j.next.written :: after.map Leaf.written := by
    rw [Element.leavesOf_map_tree, leaves']
    simp
  have between : inside.map Leaf.written ++ outside.map Leaf.written = j.gap.map Leaf.written := by
    rw [gap, List.map_append]
  have blank : ∀ t ∈ j.gap.map Leaf.written, Grammar.isBlank t = true := by
    intro t among
    obtain ⟨l, inGap, rfl⟩ := List.mem_map.mp among
    exact blanks l inGap
  intro t among
  refine shape _ _ _ trees _ _ _ _ _ _ inner outer (between ▸ blank) significant significant' ends t.written ?_
  rw [between]
  exact List.mem_map_of_mem among

/-- A comment stands between what is called and its arguments. -/
theorem Parse.expression_unbroken_commented :
    ∃ n ∈ (Node.root (ofText "package p\nvar x = f/**/ (1)").tree).descendants, n.kind = .callExpr ∧
      ∃ j, n.joint? = some j ∧ j.last.kind.endsStatement = true ∧ j.gap.length = 2 ∧
        ∀ t ∈ j.gap, t.hasNewline = false := by
  have unbroken {n : Node} {j : Joint} :=
    @expression_unbroken "package p\nvar x = f/**/ (1)" n j
  have facts : ((Node.root (ofText "package p\nvar x = f/**/ (1)").tree).descendants.any fun n =>
      n.kind == .callExpr && n.joint?.any fun j => j.last.kind.endsStatement && j.gap.length == 2) = true := by
    decide +kernel
  generalize (Node.root (ofText "package p\nvar x = f/**/ (1)").tree).descendants = nodes at unbroken facts ⊢
  simp only [List.any_eq_true, Option.any_eq_true, Bool.and_eq_true, beq_iff_eq] at facts
  obtain ⟨n, member, kind, j, joint, ends, length⟩ := facts
  exact ⟨n, member, kind, j, joint, ends, length, unbroken member (.inl (by rw [kind]; rfl)) joint ends⟩

/-- A composite literal can go on where a statement has ended: a block on the line behind a name is taken for
its braces. -/
theorem Parse.literal_broken :
    ∃ n ∈ (Node.root (ofText "package p\nfunc f()\x7bx\n\x7b\x7d\x7d\n").tree).descendants,
      n.kind = .compositeLit ∧ ∃ j, n.joint? = some j ∧ j.last.kind.endsStatement = true ∧
        j.next.kind = .leftBrace ∧ ∃ t ∈ j.gap, t.hasNewline = true := by
  have facts : ((Node.root (ofText "package p\nfunc f()\x7bx\n\x7b\x7d\x7d\n").tree).descendants.any fun n =>
      n.kind == .compositeLit && n.joint?.any fun j => j.last.kind.endsStatement && j.next.kind == .leftBrace &&
        j.gap.any Leaf.hasNewline) = true := by
    decide +kernel
  generalize (Node.root (ofText "package p\nfunc f()\x7bx\n\x7b\x7d\x7d\n").tree).descendants = nodes at facts ⊢
  simp only [List.any_eq_true, Option.any_eq_true, Bool.and_eq_true, beq_iff_eq] at facts
  obtain ⟨n, member, kind, j, joint, ⟨ends, brace⟩, newline⟩ := facts
  exact ⟨n, member, kind, j, joint, ends, brace, newline⟩

end GoNav
