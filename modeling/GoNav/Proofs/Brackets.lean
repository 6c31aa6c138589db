import GoNav.Proofs.Grammar.Children
import GoNav.Proofs.Grammar.Shape

namespace GoNav

namespace Kind

/-- The bracket that closes an opening one. -/
def closing : Kind → Option Kind
  | .leftParen => some .rightParen
  | .leftBracket => some .rightBracket
  | .leftBrace => some .rightBrace
  | _ => none

def isClosing : Kind → Bool
  | .rightParen | .rightBracket | .rightBrace => true
  | _ => false

def isBracket (kind : Kind) : Bool :=
  kind.closing.isSome || kind.isClosing

theorem not_isBracket_of_isTrivia {kind : Kind} (trivia : kind.isTrivia = true) :
    kind.isBracket = false ∧ kind ≠ .error := by
  cases kind <;> first | decide | cases trivia

end Kind

namespace Grammar

/-- The closing brackets that are due after a token, innermost first, from those due before it. A
closing bracket that is not due, or a token that no pattern covers, must not be there. -/
def nest (due : List Kind) (kind : Kind) : Option (List Kind) :=
  match kind.closing with
  | some close => some (close :: due)
  | none =>
    if kind.isClosing then (if due.head? == some kind then some due.tail else none)
    else if kind == .error then none
    else some due

/-- The closing brackets that are due behind some trees, by the tokens that stand among them. -/
def nestAll (due : List Kind) : List Tree → Option (List Kind)
  | [] => some due
  | .token kind _ :: rest => (nest due kind).bind (nestAll · rest)
  | .node .. :: rest => nestAll due rest

theorem nest_of_plain {kind : Kind} (other : kind.isBracket = false) (covered : kind ≠ .error)
    (due : List Kind) : nest due kind = some due := by
  rw [Kind.isBracket, Bool.or_eq_false_iff, Option.isSome_eq_false_iff, Option.isNone_iff_eq_none] at other
  simp [nest, other.1, other.2, covered]

theorem nest_cases {due next : List Kind} {kind : Kind} (nested : nest due kind = some next) :
    (∃ close, kind.closing = some close ∧ next = close :: due) ∨
      (kind.closing = none ∧ kind.isClosing = true ∧ due = kind :: next) ∨
      (kind.isBracket = false ∧ kind ≠ .error ∧ next = due) := by
  unfold nest at nested
  split at nested
  · rename_i close closing
    cases nested
    exact Or.inl ⟨close, closing, rfl⟩
  · rename_i closing
    right
    split at nested
    · rename_i isClosing
      cases due with
      | nil => cases nested
      | cons first rest =>
        simp only [List.head?_cons, List.tail_cons, beq_iff_eq, Option.some.injEq] at nested
        split at nested
        · rename_i same
          cases nested
          exact Or.inl ⟨closing, isClosing, same ▸ rfl⟩
        · cases nested
    · rename_i other
      split at nested
      · cases nested
      · rename_i covered
        cases nested
        refine Or.inr ⟨?_, fun same => covered (beq_iff_eq.mpr same), rfl⟩
        rw [Kind.isBracket, closing, Bool.eq_false_iff.mpr other]
        rfl

/-- What is due further out does not matter. -/
theorem nest_append {due next : List Kind} {kind : Kind} (nested : nest due kind = some next)
    (outer : List Kind) : nest (due ++ outer) kind = some (next ++ outer) := by
  rcases nest_cases nested with ⟨close, closing, rfl⟩ | ⟨closing, isClosing, rfl⟩ | ⟨other, covered, rfl⟩
  · simp [nest, closing]
  · simp [nest, closing, isClosing]
  · exact nest_of_plain other covered _

theorem nestAll_append (due : List Kind) (left right : List Tree) :
    nestAll due (left ++ right) = (nestAll due left).bind (nestAll · right) := by
  induction left generalizing due with
  | nil => rfl
  | cons t rest ih =>
    cases t with
    | token kind text => simp only [List.cons_append, nestAll, Option.bind_assoc, ih]
    | node kind children => exact ih due

theorem nestAll_outer {due next : List Kind} {trees : List Tree} (nested : nestAll due trees = some next)
    (outer : List Kind) : nestAll (due ++ outer) trees = some (next ++ outer) := by
  induction trees generalizing due with
  | nil =>
    cases nested
    rfl
  | cons t rest ih =>
    cases t with
    | token kind text =>
      obtain ⟨after, first, nested⟩ := Option.bind_eq_some_iff.mp nested
      rw [nestAll, nest_append first outer]
      exact ih nested
    | node kind children => exact ih nested

theorem ne_error_of_nestAll {due next : List Kind} {trees : List Tree} {kind : Kind} {text : String}
    (nested : nestAll due trees = some next) (member : .token kind text ∈ trees) : kind ≠ .error := by
  induction trees generalizing due with
  | nil => cases member
  | cons t rest ih =>
    cases t with
    | node other children =>
      exact ih nested ((List.mem_cons.mp member).resolve_left nofun)
    | token other written =>
      obtain ⟨after, first, nested⟩ := Option.bind_eq_some_iff.mp nested
      rcases List.mem_cons.mp member with here | later
      · cases here
        rintro rfl
        cases first
      · exact ih nested later

/-- A node that is no error, and among whose tokens each bracket is closed by another unless they are
type parameters. -/
def Bracketed (kind : Kind) (children : List Tree) : Prop :=
  kind ≠ .error ∧ (kind ≠ .typeParameters → nestAll [] children = some [])

/-- What is known of the brackets among some trees: nothing, as inside type parameters, or those that
are due behind them. -/
inductive Nesting where
  | free
  | due (closers : List Kind)
  deriving DecidableEq

def Nesting.Describes (nesting : Nesting) (trees : List Tree) : Prop :=
  Tree.ShapedAll Bracketed trees ∧
    match nesting with
    | .free => True
    | .due closers => nestAll [] trees = some closers

/-- Where a rule adds tokens in no order. -/
def Nesting.ofRule : Rule → Nesting
  | .bracketRest => .free
  | _ => .due []

/-- The account of the brackets among the children of each node. -/
def nesting : Sketch Nesting where
  lenient := false
  nothing kind := if kind == some .typeParameters then .free else .due []
  bump first d :=
    match d, first with
    | .free, _ => some .free
    | .due closers, some (some (kind :: kinds)) =>
      (nest closers kind).bind fun next =>
        if kinds.all (nest closers · == some next) then some (.due next) else none
    | .due _, _ => none
  node kind d :=
    if kind == .error then none
    else if kind == .typeParameters || d == .due [] then some (.due [])
    else none
  append d d' :=
    match d, d' with
    | .free, .free => some .free
    | .due closers, .due closers' => some (.due (closers' ++ closers))
    | _, _ => none
  join d d' := if d == d' then some d else none
  start := Nesting.ofRule
  adds := Nesting.ofRule

theorem Nesting.describes_nil (rule : Rule) : (Nesting.ofRule rule).Describes [] := by
  refine ⟨trivial, ?_⟩
  cases rule <;> trivial

theorem nesting_sound : nesting.Sound Nesting.Describes where
  nothing kind := by
    simp only [nesting]
    split
    · exact ⟨trivial, trivial⟩
    · exact ⟨trivial, rfl⟩
  start rule := Nesting.describes_nil rule
  blank {d trees t} described trivia := by
    obtain ⟨other, covered⟩ := Kind.not_isBracket_of_isTrivia trivia
    refine ⟨shapedAll_append described.1 (shapedAll_leaves [t]), ?_⟩
    cases d with
    | free => trivial
    | due closers =>
      have nested : nestAll [] trees = some closers := described.2
      simp [nestAll_append, nested, nestAll, State.leaf, nest_of_plain other covered]
  bump {d d' trees t first} described known next := by
    refine ⟨?_, ?_⟩
    · cases d <;> exact shapedAll_append described.1 (shapedAll_leaves [t])
    · simp only [nesting] at next
      split at next
      · cases next
        trivial
      · rename_i closers kind kinds
        have nested : nestAll [] trees = some closers := described.2
        obtain ⟨after, first, same⟩ := Option.bind_eq_some_iff.mp next
        split at same
        · rename_i all
          cases same
          have admitted := known _ rfl
          have here : nest closers t.kind = some after := by
            rcases List.mem_cons.mp (List.contains_iff_mem.mp admitted) with head | behind
            · exact head ▸ first
            · exact beq_iff_eq.mp (List.all_eq_true.mp all t.kind behind)
          simp [nestAll_append, nested, nestAll, State.leaf, here]
        · cases same
      · cases next
  atEnd {d d' trees} described next := by
    cases d with
    | free =>
      cases next
      exact described
    | due closers => cases next
  node {d d' trees kind} described next := by
    simp only [nesting] at next
    split at next
    · cases next
    · rename_i noError
      split at next
      · rename_i closed
        cases next
        refine ⟨⟨⟨⟨fun same => noError (beq_iff_eq.mpr same), fun other => ?_⟩, described.1⟩, trivial⟩, rfl⟩
        rcases Bool.or_eq_true_iff.mp closed with parameters | nothing
        · exact absurd (beq_iff_eq.mp parameters) other
        · rw [beq_iff_eq] at nothing
          subst nothing
          exact described.2
      · cases next
  append {d d' d'' left right} before behind next := by
    refine ⟨shapedAll_append before.1 behind.1, ?_⟩
    simp only [nesting] at next
    split at next
    · cases next
      trivial
    · rename_i closers closers'
      cases next
      have first : nestAll [] left = some closers := before.2
      have second : nestAll [] right = some closers' := behind.2
      have outer := nestAll_outer second closers
      rw [List.nil_append] at outer
      show nestAll [] (left ++ right) = _
      rw [nestAll_append, first, Option.bind_some, outer]
    · cases next
  join {d d' d'' trees} joined described := by
    simp only [nesting] at joined
    split at joined
    · rename_i same
      cases joined
      rw [beq_iff_eq] at same
      subst same
      exact described.elim id id
    · cases joined

theorem nesting_passes (rule : Rule) : nesting.account.passes rule = true :=
  Account.passes_all (by decide +kernel) (fun _ => ⟨rfl, rfl⟩) rule

end Grammar

/-! The tokens of a tree -/

/-- Whether a token stands inside type parameters. -/
def Leaf.inTypeParameters (l : Leaf) : Bool :=
  (l.parent :: l.parent.ancestors).any (·.kind == .typeParameters)

/-- The tokens below a node, without those inside type parameters. -/
def Node.plainLeaves (n : Node) : List Leaf :=
  n.leaves.filter (!·.inTypeParameters)

/-- Tokens of which each bracket is one of a pair that stands in one node, the pairs one inside the
other or apart. -/
inductive Leaf.Nested : List Leaf → Prop
  | nil : Nested []
  | plain {l : Leaf} {rest : List Leaf} (other : l.kind.isBracket = false) (behind : Nested rest) :
      Nested (l :: rest)
  | pair {opener closer : Leaf} {inner rest : List Leaf} (closing : opener.kind.closing = some closer.kind)
      (together : opener.parent = closer.parent) (inside : Nested inner) (behind : Nested rest) :
      Nested (opener :: inner ++ closer :: rest)

namespace Leaf

theorem Nested.append {left right : List Leaf} (before : Nested left) (behind : Nested right) :
    Nested (left ++ right) := by
  induction before with
  | nil => exact behind
  | plain other _ ih => exact .plain other ih
  | @pair opener closer inner rest closing together inside _ _ ih =>
    have whole := Nested.pair closing together inside ih
    rwa [List.append_assoc, List.cons_append]

/-- Tokens that close brackets opened before them in a node, innermost first, and are nested between. -/
def Closes (n : Node) : List Kind → List Leaf → Prop
  | [], leaves => Nested leaves
  | close :: due, leaves => ∃ inner l rest, leaves = inner ++ l :: rest ∧ l.kind = close ∧ l.parent = n ∧
      Nested inner ∧ Closes n due rest

theorem Closes.append {n : Node} {due : List Kind} {left right : List Leaf} (before : Nested left)
    (behind : Closes n due right) : Closes n due (left ++ right) := by
  cases due with
  | nil => exact before.append behind
  | cons close due =>
    obtain ⟨inner, l, rest, rfl, kind, parent, inside, further⟩ := behind
    exact ⟨left ++ inner, l, rest, (List.append_assoc ..).symm, kind, parent, before.append inside, further⟩

/-- One token of a node, before tokens that close what is due behind it. -/
theorem Closes.cons {n : Node} {l : Leaf} {due next : List Kind} {rest : List Leaf} (parent : l.parent = n)
    (step : Grammar.nest due l.kind = some next) (behind : Closes n next rest) : Closes n due (l :: rest) := by
  rcases Grammar.nest_cases step with ⟨close, closing, rfl⟩ | ⟨_, _, rfl⟩ | ⟨other, _, rfl⟩
  · obtain ⟨inner, closer, rest, rfl, kind, own, inside, further⟩ := behind
    have pair := Nested.pair (kind ▸ closing) (parent.trans own.symm) inside .nil
    have split : l :: (inner ++ closer :: rest) = (l :: inner ++ [closer]) ++ rest := by simp
    rw [split]
    exact Closes.append pair further
  · exact ⟨[], l, rest, rfl, rfl, parent, .nil, behind⟩
  · exact Closes.append (.plain other .nil) behind

end Leaf

namespace Node

/-- Whether neither a node nor one around it holds type parameters. -/
def IsPlain (n : Node) : Prop :=
  ∀ m ∈ n :: n.ancestors, m.kind ≠ .typeParameters

theorem plainLeaves_of_typeParameters {n : Node} (kind : n.kind = .typeParameters) : n.plainLeaves = [] := by
  rw [plainLeaves, List.filter_eq_nil_iff]
  intro l member
  obtain ⟨m, below, token⟩ := mem_leaves.mp member
  have around := (mem_descendants_iff_below.mp below).mem_ancestors
  have inside : l.inTypeParameters = true := by
    rw [Leaf.inTypeParameters, parent_of_mem_tokens token, List.any_eq_true]
    exact ⟨n, around, beq_iff_eq.mpr kind⟩
  simp [inside]

theorem inTypeParameters_of_isPlain {n : Node} {l : Leaf} (plain : n.IsPlain) (parent : l.parent = n) :
    l.inTypeParameters = false := by
  rw [Leaf.inTypeParameters, parent, List.any_eq_false]
  intro m member
  simpa using plain m member

theorem closes_elementsIn {n : Node} (plain : n.IsPlain) {index start : Nat} {due : List Kind}
    {trees : List Tree} (nested : Grammar.nestAll due trees = some [])
    (inside : ∀ c, .node c ∈ elementsIn n index start trees → Leaf.Nested c.plainLeaves) :
    Leaf.Closes n due
      (((elementsIn n index start trees).flatMap Element.leaves).filter (!·.inTypeParameters)) := by
  induction trees generalizing index start due with
  | nil =>
    cases nested
    exact .nil
  | cons t rest ih =>
    have later (c : Node) (member : .node c ∈ elementsIn n (index + 1) (start + t.bytes) rest) :
        Leaf.Nested c.plainLeaves :=
      inside c (List.mem_cons_of_mem _ member)
    simp only [elementsIn, List.flatMap_cons, List.filter_append]
    cases t with
    | node kind children => exact Leaf.Closes.append (inside _ (List.mem_cons_self ..)) (ih nested later)
    | token kind text =>
      obtain ⟨next, step, nested⟩ := Option.bind_eq_some_iff.mp nested
      have own : (⟨kind, text, start, n⟩ : Leaf).inTypeParameters = false :=
        inTypeParameters_of_isPlain plain rfl
      simp only [Element.leaves, List.filter_singleton, own, Bool.not_false, cond_true, List.singleton_append]
      exact Leaf.Closes.cons rfl step (ih nested later)

/-- The brackets below a node are nested if they are among the tokens of each single node. -/
theorem nested_plainLeaves {n : Node} (shaped : (Tree.node n.kind n.trees).Shaped Grammar.Bracketed)
    (plain : n.IsPlain) : Leaf.Nested n.plainLeaves := by
  induction n using children_induction with
  | step n ih =>
    have own := shaped.1.2 (plain n (List.mem_cons_self ..))
    rw [plainLeaves, leaves_eq]
    show Leaf.Closes n [] _
    refine closes_elementsIn plain own fun c member => ?_
    have child := mem_children.mpr member
    by_cases parameters : c.kind = .typeParameters
    · rw [plainLeaves_of_typeParameters parameters]
      exact .nil
    · refine ih c child (Tree.shapedAll_iff.mp shaped.2 _ (mem_elementsIn member).1) fun m among => ?_
      rcases List.mem_cons.mp among with rfl | above
      · exact parameters
      · rw [ancestors_of_parent (parent_of_mem_children child)] at above
        exact plain m above

theorem ne_error_of_mem_plainLeaves {n : Node} (shaped : (Tree.node n.kind n.trees).Shaped Grammar.Bracketed)
    {l : Leaf} (member : l ∈ n.plainLeaves) : l.kind ≠ .error := by
  obtain ⟨among, plain⟩ := List.mem_filter.mp member
  obtain ⟨m, below, token⟩ := mem_leaves.mp among
  have outside : m.kind ≠ .typeParameters := by
    intro kind
    simp [Leaf.inTypeParameters, parent_of_mem_tokens token, kind] at plain
  exact Grammar.ne_error_of_nestAll ((shape_of_mem_descendants shaped below).2 outside)
    (mem_trees_of_mem_tokens token)

end Node

namespace Parse

theorem bracketed_of_ok {text : String} (ok : (ofText text).ok = true) :
    (ofText text).tree.Shaped Grammar.Bracketed := by
  have described := Grammar.nesting_sound.ofTokens Grammar.nesting_passes (Or.inr (List.isEmpty_iff.mp ok))
  exact ⟨⟨nofun, fun _ => described.2⟩, described.1⟩

/-- A file without syntax errors is well bracketed: it has no error node, and outside of type parameters
it has no token that no pattern covers, and its brackets are nested and close one another in one node. -/
theorem nested_of_ok {text : String} (ok : (ofText text).ok = true) :
    let root := Node.root (ofText text).tree
    (∀ n ∈ root.descendants, n.kind ≠ .error) ∧ (∀ l ∈ root.plainLeaves, l.kind ≠ .error) ∧
      Leaf.Nested root.plainLeaves := by
  intro root
  have shaped : (Tree.node root.kind root.trees).Shaped Grammar.Bracketed := bracketed_of_ok ok
  refine ⟨fun n member => (Node.shape_of_mem_descendants shaped member).1,
    fun l member => Node.ne_error_of_mem_plainLeaves shaped member,
    Node.nested_plainLeaves shaped fun m member => ?_⟩
  rw [List.mem_singleton.mp member]
  exact nofun

/-- The brackets of a generic function, without those around its type parameters. -/
theorem nested_of_ok_generic :
    let file := ofText "package p; func f[T any](a []T) \x7b g(a[0]) \x7d"
    file.ok = true ∧ Leaf.Nested (Node.root file.tree).plainLeaves ∧
      ((Node.root file.tree).plainLeaves.filter (·.kind.isBracket)).map Leaf.text =
        ["(", "[", "]", ")", "\x7b", "(", "[", "]", ")", "\x7d"] := by
  have ok : (ofText "package p; func f[T any](a []T) \x7b g(a[0]) \x7d").ok = true := by decide +kernel
  exact ⟨ok, (nested_of_ok ok).2.2, by decide +kernel⟩

end Parse

end GoNav
