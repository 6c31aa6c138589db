import GoNav.Proofs.Grammar.Children
import GoNav.Proofs.Placement

namespace GoNav

/-- The kinds of nodes that hold statements. -/
def Kind.statementHolders : List Kind :=
  [.block, .caseClause, .commClause, .labeledStatement]

/-- The kinds of nodes in which a node of a kind may stand, for those by which names are introduced and for
what may lie between them and the function or the file around. -/
def Kind.holders? : Kind → Option (List Kind)
  | .sourceFile => some []
  | .varDecl | .constDecl | .typeDecl => some [.sourceFile, .declarationStatement]
  | .varSpec => some [.varDecl]
  | .constSpec => some [.constDecl]
  | .typeSpec => some [.typeDecl]
  | .varDef => some [.varSpec, .shortVarDecl, .rangeClause]
  | .constDef => some [.constSpec]
  | .declarationStatement | .labeledStatement | .forStatement | .switchStatement | .selectStatement =>
    some statementHolders
  | .ifStatement => some (statementHolders ++ [.ifStatement])
  | .block =>
    some (statementHolders ++ [.functionDecl, .methodDecl, .functionLit, .ifStatement, .forStatement])
  | .caseClause => some [.switchStatement]
  | .commClause => some [.selectStatement]
  | .shortVarDecl => some (statementHolders ++ [.ifStatement, .forStatement, .switchStatement, .forClause])
  | .rangeClause | .forClause => some [.forStatement]
  | .signature => some [.functionDecl, .methodDecl, .functionLit, .functionType, .methodSpec]
  | .receiver => some [.methodDecl]
  | _ => none

/-- A function type, or a method as an interface lists it, is not more than a signature. -/
def Kind.isBareSignature (kind : Kind) : Bool :=
  kind == .functionType || kind == .methodSpec

/-- The kinds of the nodes among some trees. -/
def Tree.nodeKinds (trees : List Tree) : List Kind :=
  trees.filterMap fun
    | .token .. => none
    | .node kind _ => some kind

namespace Grammar

theorem nodeKinds_leaves (tokens : List Token) : Tree.nodeKinds (tokens.map State.leaf) = [] := by
  rw [Tree.nodeKinds, List.filterMap_map, List.filterMap_eq_nil_iff]
  exact fun _ _ => rfl

/-- A node stands only in nodes that may hold it, and beside a bare signature there is no other node. -/
def Held (kind : Kind) (children : List Tree) : Prop :=
  (∀ inner ∈ Tree.nodeKinds children, ∀ holders ∈ inner.holders?, kind ∈ holders) ∧
    (kind.isBareSignature = true → (Tree.nodeKinds children).length ≤ 1)

/-- What there may be among some trees: which kinds of nodes, of those whose holders are known, and how many
nodes, where two are as good as more. -/
structure Assortment where
  kinds : List Kind
  nodes : Nat
  deriving DecidableEq

namespace Assortment

def Covers (d : Assortment) (trees : List Tree) : Prop :=
  (∀ kind ∈ Tree.nodeKinds trees, kind.holders?.isSome = true → kind ∈ d.kinds) ∧
    min 2 (Tree.nodeKinds trees).length ≤ d.nodes

/-- Of a node by itself. -/
def ofNode (kind : Kind) : Assortment :=
  ⟨if kind.holders?.isSome then [kind] else [], 1⟩

def append (d d' : Assortment) : Assortment :=
  ⟨d.kinds ∪ d'.kinds, min 2 (d.nodes + d'.nodes)⟩

def join (d d' : Assortment) : Assortment :=
  ⟨d'.kinds ∪ d.kinds, max d.nodes d'.nodes⟩

/-- Whether a node of a kind may hold what there is. -/
def mayBeIn (d : Assortment) (kind : Kind) : Bool :=
  d.kinds.all (fun inner => inner.holders?.all (·.contains kind)) && (!kind.isBareSignature || d.nodes ≤ 1)

variable {d d' : Assortment} {left right trees : List Tree} {kind : Kind}

theorem Covers.append (before : d.Covers left) (behind : d'.Covers right) :
    (d.append d').Covers (left ++ right) := by
  obtain ⟨kinds, few⟩ := before
  obtain ⟨kinds', few'⟩ := behind
  have split : Tree.nodeKinds (left ++ right) = Tree.nodeKinds left ++ Tree.nodeKinds right :=
    List.filterMap_append
  constructor
  · intro kind member tracked
    rw [split, List.mem_append] at member
    exact List.mem_union_iff.mpr (member.imp (kinds kind · tracked) (kinds' kind · tracked))
  · rw [split, List.length_append]
    simp only [Assortment.append]
    omega

theorem Covers.join (either : d.Covers trees ∨ d'.Covers trees) : (d.join d').Covers trees := by
  rcases either with ⟨kinds, few⟩ | ⟨kinds, few⟩
  · exact ⟨fun kind member tracked => List.mem_union_iff.mpr (.inr (kinds kind member tracked)),
      Nat.le_trans few (Nat.le_max_left ..)⟩
  · exact ⟨fun kind member tracked => List.mem_union_iff.mpr (.inl (kinds kind member tracked)),
      Nat.le_trans few (Nat.le_max_right ..)⟩

theorem Covers.leaf (covers : d.Covers trees) (t : Token) : d.Covers (trees ++ [State.leaf t]) := by
  simpa [Covers, Tree.nodeKinds, State.leaf] using covers

theorem covers_node : (ofNode kind).Covers [.node kind trees] := by
  constructor
  · intro inner member tracked
    cases List.mem_singleton.mp member
    simp [ofNode, tracked]
  · simp [Tree.nodeKinds, ofNode]

theorem Covers.held (covers : d.Covers trees) (may : d.mayBeIn kind = true) : Held kind trees := by
  simp only [mayBeIn, Bool.and_eq_true, List.all_eq_true, Bool.or_eq_true, Bool.not_eq_true',
    decide_eq_true_eq] at may
  obtain ⟨allowed, alone⟩ := may
  constructor
  · intro inner member holders known
    have among := covers.1 inner member (by simp [Option.mem_def.mp known])
    have within := allowed inner among
    rw [Option.mem_def.mp known, Option.all_some] at within
    exact List.contains_iff_mem.mp within
  · intro bare
    have few := covers.2
    rcases alone with other | single
    · rw [bare] at other
      cases other
    · omega

end Assortment

/-- The account of which nodes stand in which. -/
def holding : Sketch Assortment where
  lenient := true
  nothing _ := ⟨[], 0⟩
  bump _ d := some d
  node kind d := if d.mayBeIn kind then some (.ofNode kind) else none
  append d d' := some (d.append d')
  join d d' := some (d.join d')
  start _ := ⟨[], 0⟩
  adds
    | .sourceFile | .topLevelDecl => ⟨[.varDecl, .constDecl, .typeDecl], 2⟩
    | .varDecl => ⟨[.varDecl], 1⟩
    | .constDecl => ⟨[.constDecl], 1⟩
    | .typeDecl => ⟨[.typeDecl], 1⟩
    | .varSpec => ⟨[.varSpec], 1⟩
    | .constSpec => ⟨[.constSpec], 1⟩
    | .typeSpec => ⟨[.typeSpec], 1⟩
    | .signature => ⟨[.signature], 1⟩
    | .receiver => ⟨[.receiver], 1⟩
    | .block => ⟨[.block], 1⟩
    | .ifStatement => ⟨[.ifStatement], 1⟩
    | .forStatement => ⟨[.forStatement], 1⟩
    | .switchStatement => ⟨[.switchStatement], 1⟩
    | .selectStatement => ⟨[.selectStatement], 1⟩
    | .caseClause => ⟨[.caseClause], 1⟩
    | .commClause => ⟨[.commClause], 1⟩
    | .statementList | .statement =>
      ⟨[.declarationStatement, .labeledStatement, .shortVarDecl, .block, .ifStatement, .forStatement,
        .switchStatement, .selectStatement], 2⟩
    | .simpleStatement | .headerPart | .shortVarDecl => ⟨[.shortVarDecl], 2⟩
    | .forHeader => ⟨[.shortVarDecl, .rangeClause, .forClause], 2⟩
    | _ => ⟨[], 2⟩

theorem holding_sound : holding.Sound fun d trees => Tree.ShapedAll Held trees ∧ d.Covers trees where
  nothing _ := ⟨trivial, by simp [Assortment.Covers, Tree.nodeKinds]⟩
  start _ := ⟨trivial, by simp [Assortment.Covers, Tree.nodeKinds]⟩
  blank {d trees t} described _ :=
    ⟨shapedAll_append described.1 (shapedAll_leaves [t]), described.2.leaf t⟩
  bump {d d' trees t first} described _ next := by
    cases next
    exact ⟨shapedAll_append described.1 (shapedAll_leaves [t]), described.2.leaf t⟩
  atEnd {d d' trees} described next := by
    cases next
    exact described
  node {d d' trees kind} described next := by
    simp only [holding] at next
    split at next
    · rename_i may
      cases next
      exact ⟨⟨⟨described.2.held may, described.1⟩, trivial⟩, Assortment.covers_node⟩
    · cases next
  append {d d' d'' left right} before behind next := by
    cases next
    exact ⟨shapedAll_append before.1 behind.1, before.2.append behind.2⟩
  join {d d' d'' trees} joined described := by
    cases joined
    exact ⟨described.elim (·.1) (·.1), .join (described.imp (·.2) (·.2))⟩

theorem holding_passes (rule : Rule) : holding.account.passes rule = true :=
  Account.passes_all (by decide +kernel) (fun _ => ⟨rfl, rfl⟩) rule

end Grammar

theorem Parse.held (text : String) : (ofText text).tree.Shaped Grammar.Held := by
  obtain ⟨below, covers⟩ := Grammar.holding_sound.ofTokens Grammar.holding_passes (.inl rfl)
  exact ⟨covers.held (by decide), below⟩

namespace Node

theorem nodeKinds_trees (n : Node) : Tree.nodeKinds n.trees = n.children.map kind := by
  rw [← map_tree_elements, Tree.nodeKinds, children, List.filterMap_map, List.map_filterMap]
  refine List.filterMap_congr fun e _ => ?_
  cases e <;> rfl

variable {f : SourceFile} {n p c d : Node}

theorem held (inside : n ∈ f.root.descendants) : Grammar.Held n.kind n.trees := by
  have shaped := Parse.held f.text
  rw [← f.tree_root] at shaped
  exact shape_of_mem_descendants shaped inside

theorem mem_holders {kind : Kind} {holders : List Kind} (inside : n ∈ f.root.descendants)
    (child : c ∈ n.children) (is : c.kind = kind) (known : kind.holders? = some holders) :
    n.kind ∈ holders := by
  refine (held inside).1 kind ?_ holders known
  rw [nodeKinds_trees, ← is]
  exact List.mem_map_of_mem child

/-- Apart from the root, each node stands in a node that may hold it. -/
theorem exists_holder {kind : Kind} {holders : List Kind} (inside : n ∈ f.root.descendants)
    (is : n.kind = kind) (other : kind ≠ .sourceFile) (known : kind.holders? = some holders) :
    ∃ p ∈ f.root.descendants, n ∈ p.children ∧ p.kind ∈ holders := by
  cases mem_descendants_iff_below.mp inside with
  | root => exact absurd (is.symm.trans f.kind_root) other
  | child above child =>
    have outer := mem_descendants_iff_below.mpr above
    exact ⟨_, outer, child, mem_holders outer child is known⟩

/-- A signature that is a whole type or method of an interface stands there alone. -/
theorem child_unique (inside : n ∈ f.root.descendants) (bare : n.kind.isBareSignature = true)
    (left : c ∈ n.children) (right : d ∈ n.children) : c = d := by
  have few := (held inside).2 bare
  rw [nodeKinds_trees, List.length_map] at few
  obtain ⟨only, single⟩ : ∃ only, n.children = [only] :=
    List.length_eq_one_iff.mp (by have := List.length_pos_of_mem left; omega)
  rw [single, List.mem_singleton] at left right
  exact left.trans right.symm

end Node

end GoNav
