import GoNav.Proofs.LocalScope
import GoNav.Proofs.Occurrence
import GoNav.Proofs.Shadowing

namespace GoNav

/-- The kinds of nodes that are functions with a body. -/
def Kind.isFunction : Kind → Bool
  | .functionDecl | .methodDecl | .functionLit => true
  | _ => false

/-- The kinds of statements, and of parts of them, that hold other statements. -/
def Kind.bodies : List Kind :=
  [.block, .caseClause, .commClause, .labeledStatement, .ifStatement, .forStatement, .switchStatement,
   .selectStatement]

namespace Node

variable {f : SourceFile} {a d n p s part : Node}

/-! Where declarations are in scope -/

/-- The byte offset from which on a name is in scope: for a type the end of the name, and for a variable or
a constant that of the specification or short declaration. -/
def visibleFrom (d : Node) : Nat :=
  match d.kind with
  | .typeSpec => (d.identifier.map Leaf.stop).getD d.stop
  | _ => (d.parent.map Node.stop).getD d.stop

/-- A variable, constant or type is in scope at a node by the rules for blocks: the node is inside the block,
clause or statement to which the name is confined, and behind the place from which on it is visible. -/
structure InScope (d n : Node) : Prop where
  kind : d.kind = .varDef ∨ d.kind = .constDef ∨ d.kind = .typeSpec
  around : ∃ s ∈ n.ancestors, d.scope? = some s
  behind : d.visibleFrom ≤ n.start

/-- Whether a variable, constant or type is in scope at a node of the same tree. -/
def isInScope (d n : Node) : Bool :=
  (d.kind == .varDef || d.kind == .constDef || d.kind == .typeSpec) &&
    d.scope?.any n.ancestors.contains && d.visibleFrom ≤ n.start

theorem mem_of_contains {nodes : List Node} (known : ∀ m ∈ nodes, m ∈ f.root.descendants)
    (inside : n ∈ f.root.descendants) (contains : nodes.contains n = true) : n ∈ nodes := by
  obtain ⟨m, member, same⟩ := List.contains_iff_exists_mem_beq.mp contains
  have below := mem_descendants_iff_below.mp (known m member)
  rwa [(mem_descendants_iff_below.mp inside).eq_of_path_eq rfl below (eq_of_beq same)]

theorem inScope_of_isInScope (known : d ∈ f.root.descendants) (inside : n ∈ f.root.descendants)
    (checked : d.isInScope n = true) : d.InScope n := by
  simp only [isInScope, Bool.and_eq_true, Bool.or_eq_true, beq_iff_eq, decide_eq_true_eq, or_assoc] at checked
  obtain ⟨⟨kind, around⟩, behind⟩ := checked
  obtain ⟨s, scope, contains⟩ := (Option.any_eq_true _ _).mp around
  have above := Near.ancestor (List.mem_of_find?_eq_some scope) f.root rfl known
  have outer (m : Node) (up : m ∈ n.ancestors) := Near.ancestor up f.root rfl inside
  exact ⟨kind, ⟨s, mem_of_contains outer above contains, scope⟩, behind⟩

theorem visibleFrom_of_varDef (kind : d.kind = .varDef) (child : d ∈ p.children) : d.visibleFrom = p.stop := by
  simp [visibleFrom, kind, parent_of_mem_children child]

/-- A name is visible only behind itself. -/
theorem start_lt_visibleFrom {name : String} (inside : d ∈ f.root.descendants)
    (kind : d.kind = .varDef ∨ d.kind = .constDef ∨ d.kind = .typeSpec) (called : d.declaredName = some name) :
    d.start < d.visibleFrom := by
  have ident : ∃ l, d.identifier = some l := by
    rcases kind with k | k | k <;> simp only [declaredName, nameLeaf, k, Option.map_eq_some_iff] at called <;>
      exact called.imp fun _ => And.left
  obtain ⟨l, own⟩ := ident
  have token := (token_spec own).1
  have inhabited := SourceFile.start_lt_stop (mem_leaves.mpr ⟨d, inside, token⟩)
  have bounds : d.start ≤ l.start ∧ l.stop ≤ d.stop := bounds_of_mem_elementsIn (mem_tokens.mp token)
  have outer {p : Node} (parent : d.parent = some p) : d.stop ≤ p.stop := by
    cases mem_descendants_iff_below.mp inside with
    | root => cases parent
    | child _ child =>
      cases (parent_of_mem_children child).symm.trans parent
      exact (bounds_of_mem_children child).2
  have upTo : l.stop ≤ d.visibleFrom := by
    unfold visibleFrom
    split
    · simp [own]
    · cases parent : d.parent with
      | none => exact bounds.2
      | some p => exact bounds.2.trans (outer parent)
  omega

/-! The way from a declaration to where it is confined -/

/-- The nodes around a node, up to the one to which its name is confined. -/
def belowScope (d : Node) : List Node :=
  d.ancestors.takeWhile (!·.kind.isScope)

theorem Open.mem_belowScope (below : Open part d) : part = d ∨ part ∈ d.belowScope := by
  induction below with
  | here => exact .inl rfl
  | child _ plain child ih =>
    rw [belowScope, ancestors_of_parent (parent_of_mem_children child), List.takeWhile_cons]
    simp only [plain, Bool.not_false, if_true]
    exact .inr (ih.elim (fun same => same ▸ List.mem_cons_self ..) (List.mem_cons_of_mem _))

theorem Open.outer (below : Open part d) (child : part ∈ a.children) (plain : a.kind.isScope = false) :
    Open a d := by
  induction below with
  | here => exact .child .here plain child
  | child _ plain child ih => exact .child ih plain child

theorem mem_childrenOf {c : Node} {kind : Kind} (child : c ∈ n.children) (is : c.kind = kind) :
    c ∈ n.childrenOf kind :=
  List.mem_filter.mpr ⟨child, beq_iff_eq.mpr is⟩

theorem Open.scope_eq (below : Open part d) (child : part ∈ a.children) (confines : a.kind.isScope = true)
    (scope : d.scope? = some s) : a = s := by
  rw [below.scope?_eq, scope?_of_child child, if_pos confines] at scope
  exact Option.some.inj scope

theorem eq_root_of_kind (inside : n ∈ f.root.descendants) (kind : n.kind = .sourceFile) : n = f.root := by
  cases mem_descendants_iff_below.mp inside with
  | root => rfl
  | child above child => cases mem_holders (mem_descendants_iff_below.mpr above) child kind rfl

/-- Where a declaration stands in what it is confined to: in a part that is over where the name becomes
visible, or in such a part of a `for` clause, or in a statement of its own. -/
inductive Stands (s d : Node) : Prop
  | inPart {p : Node} (child : p ∈ s.children) (introduced : d ∈ Scope.introducedBy p)
      (ended : p.stop ≤ d.visibleFrom)
  | inClause {c p : Node} (clause : c.kind = .forClause) (stands : c ∈ s.children)
      (byClause : d ∈ Scope.introducedBy c) (child : p ∈ c.children) (introduced : d ∈ Scope.introducedBy p)
      (ended : p.stop ≤ d.visibleFrom)
  | inStatement {p : Node} (statement : p.kind = .declarationStatement) (child : p ∈ s.children)
      (introduced : d ∈ Scope.introducedBy p) (within : Open p d)

theorem stands_of_localDeclared {decl : Node} (inside : decl ∈ f.root.descendants)
    (kind : decl.kind = .varDecl ∨ decl.kind = .constDecl ∨ decl.kind = .typeDecl)
    (declared : d ∈ Scope.localDeclared decl) (scope : d.scope? = some s)
    (unlabeled : ∀ a, a.kind = .labeledStatement → ¬ Open a d) : Stands s d := by
  have below := (Scope.localDeclared_open .here declared).1
  have held : ∃ p ∈ f.root.descendants, decl ∈ p.children ∧
      p.kind ∈ [Kind.sourceFile, .declarationStatement] := by
    rcases kind with k | k | k <;> exact exists_holder inside k (by decide) rfl
  obtain ⟨p, outer, child, holder⟩ := held
  simp only [List.mem_cons, List.not_mem_nil, or_false] at holder
  rcases holder with top | statement
  · obtain rfl := eq_root_of_kind outer top
    rw [below.scope?_eq, scope?_of_child child, top] at scope
    cases scope
  · have within := below.outer child (by rw [statement]; rfl)
    obtain ⟨a, _, stands, holder⟩ := exists_holder outer statement (by decide) rfl
    have confines : a.kind.isScope = true := by
      simp only [Kind.statementHolders, List.mem_cons, List.not_mem_nil, or_false] at holder
      rcases holder with k | k | k | k
      · rw [k]; rfl
      · rw [k]; rfl
      · rw [k]; rfl
      · exact absurd (within.outer stands (by rw [k]; rfl)) (unlabeled a k)
    obtain rfl := within.scope_eq stands confines scope
    refine .inStatement statement stands ?_ within
    rw [Scope.introducedBy, statement]
    exact List.mem_flatMap.mpr ⟨decl, child, declared⟩

theorem stands_of_shortVarDecl (outer : p ∈ f.root.descendants) (short : p.kind = .shortVarDecl)
    (child : d ∈ p.children) (kind : d.kind = .varDef) (scope : d.scope? = some s)
    (unlabeled : ∀ a, a.kind = .labeledStatement → ¬ Open a d) : Stands s d := by
  have own := mem_childrenOf child kind
  have ended := (visibleFrom_of_varDef kind child).ge
  have introduced : d ∈ Scope.introducedBy p := by rw [Scope.introducedBy, short]; exact own
  have below : Open p d := Open.here.child (by rw [short]; rfl) child
  obtain ⟨a, further, among, holder⟩ := exists_holder outer short (by decide) rfl
  by_cases confines : a.kind.isScope = true
  · obtain rfl := below.scope_eq among confines scope
    exact .inPart among introduced ended
  · have clause : a.kind = .forClause := by
      simp only [Kind.statementHolders, List.cons_append, List.nil_append, List.mem_cons, List.not_mem_nil,
        or_false] at holder
      rcases holder with k | k | k | k | k | k | k | k <;> try exact absurd (by rw [k]; rfl) confines
      · exact absurd (below.outer among (by rw [k]; rfl)) (unlabeled a k)
      · exact k
    have within := below.outer among (by rw [clause]; rfl)
    obtain ⟨b, _, stands, holder⟩ := exists_holder further clause (by decide) rfl
    obtain rfl := within.scope_eq stands (by rw [List.mem_singleton.mp holder]; rfl) scope
    refine .inClause clause stands ?_ among introduced ended
    rw [Scope.introducedBy, clause]
    exact List.mem_flatMap.mpr ⟨p, mem_childrenOf among short, own⟩

theorem stands_of_rangeClause (outer : p ∈ f.root.descendants) (range : p.kind = .rangeClause)
    (child : d ∈ p.children) (kind : d.kind = .varDef) (scope : d.scope? = some s) : Stands s d := by
  have below : Open p d := Open.here.child (by rw [range]; rfl) child
  obtain ⟨a, _, among, holder⟩ := exists_holder outer range (by decide) rfl
  obtain rfl := below.scope_eq among (by rw [List.mem_singleton.mp holder]; rfl) scope
  refine .inPart among ?_ (visibleFrom_of_varDef kind child).ge
  rw [Scope.introducedBy, range]
  exact mem_childrenOf child kind

theorem stands_of_scope? (inside : d ∈ f.root.descendants)
    (kind : d.kind = .varDef ∨ d.kind = .constDef ∨ d.kind = .typeSpec) (scope : d.scope? = some s)
    (unlabeled : ∀ a, a.kind = .labeledStatement → ¬ Open a d) : Stands s d := by
  rcases kind with kind | kind | kind
  · obtain ⟨p, outer, child, holder⟩ := exists_holder inside kind (by decide) rfl
    simp only [List.mem_cons, List.not_mem_nil, or_false] at holder
    rcases holder with spec | short | range
    · obtain ⟨decl, further, among, isDecl⟩ := exists_holder outer spec (by decide) rfl
      have varDecl := List.mem_singleton.mp isDecl
      refine stands_of_localDeclared further (.inl varDecl) ?_ scope unlabeled
      rw [Scope.localDeclared, varDecl]
      exact List.mem_flatMap.mpr ⟨p, mem_childrenOf among spec, mem_childrenOf child kind⟩
    · exact stands_of_shortVarDecl outer short child kind scope unlabeled
    · exact stands_of_rangeClause outer range child kind scope
  · obtain ⟨p, outer, child, holder⟩ := exists_holder inside kind (by decide) rfl
    have spec := List.mem_singleton.mp holder
    obtain ⟨decl, further, among, isDecl⟩ := exists_holder outer spec (by decide) rfl
    have constDecl := List.mem_singleton.mp isDecl
    refine stands_of_localDeclared further (.inr (.inl constDecl)) ?_ scope unlabeled
    rw [Scope.localDeclared, constDecl]
    exact List.mem_flatMap.mpr ⟨p, mem_childrenOf among spec, mem_childrenOf child kind⟩
  · obtain ⟨decl, further, among, isDecl⟩ := exists_holder inside kind (by decide) rfl
    have typeDecl := List.mem_singleton.mp isDecl
    refine stands_of_localDeclared further (.inr (.inr typeDecl)) ?_ scope unlabeled
    rw [Scope.localDeclared, typeDecl]
    exact mem_childrenOf among kind

/-- A part that is not around a node is over before it, if something in the part starts before the node. -/
theorem over_of_not_around (inside : n ∈ f.root.descendants) (around : s ∈ n.ancestors)
    (child : part ∈ s.children) (within : d ∈ part.descendants) (earlier : d.start < n.start)
    (outside : part ∉ n.ancestors) : part.stop ≤ n.start := by
  obtain ⟨c, holds, below⟩ := (mem_descendants_iff_below.mp inside).exists_child rfl around
  have inner := bounds_of_mem_descendants below
  have first := (bounds_of_mem_descendants within).1
  have positive := n.start_le_stop
  rcases children_apart child holds with rfl | before | behind
  · rcases List.mem_cons.mp (mem_descendants_iff_below.mp below).mem_ancestors with rfl | up
    · omega
    · exact absurd up outside
  · omega
  · omega

theorem mem_takeWhile_ancestors (inside : n ∈ f.root.descendants) (around : a ∈ n.ancestors)
    (other : a.kind ≠ .sourceFile) : a ∈ n.ancestors.takeWhile (·.kind != .sourceFile) := by
  obtain ⟨before, behind, split⟩ := List.append_of_mem around
  have order := pairwise_ancestors n
  rw [split, List.pairwise_append] at order
  have below : ∀ b ∈ before, (b.kind != .sourceFile) = true := by
    intro b member
    refine bne_iff_ne.mpr fun top => ?_
    have up : b ∈ n.ancestors := by
      rw [split]
      exact List.mem_append_left _ member
    obtain rfl := eq_root_of_kind (Near.ancestor up f.root rfl inside) top
    cases order.2.2 _ member a (List.mem_cons_self ..)
  rw [split, List.takeWhile_append_of_pos below, List.takeWhile_cons, if_pos (bne_iff_ne.mpr other)]
  simp

/-- What is in scope is offered, by a node around the element that lies in what the name is confined to. -/
theorem exists_offer {name : String} (inside : n ∈ f.root.descendants) (known : d ∈ f.root.descendants)
    (called : d.declaredName = some name) (inScope : d.InScope n)
    (unlabeled : ∀ a, a.kind = .labeledStatement → ¬ Open a d)
    (outside : ∀ a ∈ n.ancestors, a.kind = .declarationStatement → ¬ Open a d) (scope : d.scope? = some s) :
    ∃ o ∈ Scope.offers n, o.definition = d ∧ (o.around = s ∨ s ∈ o.around.ancestors) := by
  have earlier : d.start < n.start :=
    Nat.lt_of_lt_of_le (start_lt_visibleFrom known inScope.kind called) inScope.behind
  have around : s ∈ n.ancestors := by
    obtain ⟨t, up, same⟩ := inScope.around
    cases same.symm.trans scope
    exact up
  have confines : s.kind.isScope = true := List.find?_some (p := fun s : Node => s.kind.isScope) scope
  have offered {a p : Node} (up : a ∈ n.ancestors) (other : a.kind ≠ .sourceFile) (child : p ∈ a.children)
      (ended : p.stop ≤ n.start) (introduced : d ∈ Scope.introducedBy p) : ⟨a, p, d⟩ ∈ Scope.offers n :=
    List.mem_flatMap.mpr ⟨a, mem_takeWhile_ancestors inside up other, List.mem_flatMap.mpr
      ⟨p, List.mem_reverse.mpr (mem_takeWhile_children child ended), List.mem_map_of_mem introduced⟩⟩
  have other : s.kind ≠ .sourceFile := fun top => by rw [top] at confines; cases confines
  have behind := inScope.behind
  cases stands_of_scope? known inScope.kind scope unlabeled with
  | inPart child introduced ended =>
    exact ⟨_, offered around other child (by omega) introduced, rfl, .inl rfl⟩
  | @inClause c p clause stands byClause child introduced ended =>
    by_cases up : c ∈ n.ancestors
    · refine ⟨_, offered up (by simp [clause]) child (by omega) introduced, rfl, .inr ?_⟩
      rw [ancestors_of_parent (parent_of_mem_children stands)]
      exact List.mem_cons_self ..
    · have within := (Scope.introducedBy_open byClause).1.mem_descendants
      have ended := over_of_not_around inside around stands within earlier up
      exact ⟨_, offered around other stands ended byClause, rfl, .inl rfl⟩
  | @inStatement p statement child introduced within =>
    have apart : p ∉ n.ancestors := fun up => outside p up statement within
    have ended := over_of_not_around inside around child within.mem_descendants earlier apart
    exact ⟨_, offered around other child ended introduced, rfl, .inl rfl⟩

/-- Statements stand in functions. -/
theorem exists_function (inside : n ∈ f.root.descendants) (body : n.kind ∈ Kind.bodies) :
    ∃ g ∈ n.ancestors, g.kind.isFunction = true := by
  have closed : ∀ kind ∈ Kind.bodies, (kind.holders?.any (·.all fun holder =>
      holder.isFunction || Kind.bodies.contains holder)) = true := by decide
  induction mem_descendants_iff_below.mp inside with
  | root => exact absurd (f.kind_root ▸ body) (by decide)
  | @child p c above child ih =>
    have outer := mem_descendants_iff_below.mpr above
    obtain ⟨holders, known, each⟩ := (Option.any_eq_true _ _).mp (closed c.kind body)
    have holder := List.all_eq_true.mp each p.kind (mem_holders outer child rfl known)
    rw [Bool.or_eq_true, List.contains_iff_mem] at holder
    rw [ancestors_of_parent (parent_of_mem_children child)]
    rcases holder with function | further
    · exact ⟨p, List.mem_cons_self .., function⟩
    · obtain ⟨g, up, function⟩ := ih outer further
      exact ⟨g, List.mem_cons_of_mem _ up, function⟩

/-- The innermost function around a node. -/
def function? (n : Node) : Option Node :=
  n.ancestors.find? (·.kind.isFunction)

theorem isScope_of_isFunction {kind : Kind} (function : kind.isFunction = true) : kind.isScope = true := by
  cases kind <;> first | rfl | cases function

theorem isFunction_or_mem_bodies {kind : Kind} (confines : kind.isScope = true) :
    kind.isFunction = true ∨ kind ∈ Kind.bodies := by
  cases kind <;> first | decide | cases confines

/-- Up to where a name is confined there is no function. -/
theorem function?_of_scope? (scope : d.scope? = some s) :
    d.function? = if s.kind.isFunction then some s else s.function? := by
  induction d using ancestors.induct with
  | case1 => cases scope
  | case2 kind start trees index p ih =>
    simp only [scope?, function?, ancestors, List.find?_cons] at scope ih ⊢
    cases confines : p.kind.isScope with
    | true =>
      rw [confines] at scope
      cases scope
      split <;> simp_all
    | false =>
      rw [confines] at scope
      have other : p.kind.isFunction = false :=
        Bool.eq_false_iff.mpr fun function => by rw [isScope_of_isFunction function] at confines; cases confines
      rw [other]
      exact ih scope

theorem exists_function_of_scope (inside : d ∈ f.root.descendants) (scope : d.scope? = some s) :
    ∃ g, d.function? = some g ∧ (g = s ∨ g ∈ s.ancestors) := by
  rw [function?_of_scope? scope]
  split
  · exact ⟨s, rfl, .inl rfl⟩
  · rename_i other
    have around := List.mem_of_find?_eq_some scope
    have confines : s.kind.isScope = true := List.find?_some (p := fun s : Node => s.kind.isScope) scope
    have body := (isFunction_or_mem_bodies confines).resolve_left other
    obtain ⟨g, up, function⟩ := exists_function (Near.ancestor around f.root rfl inside) body
    have some : s.function?.isSome = true := List.find?_isSome.mpr ⟨g, up, function⟩
    obtain ⟨g, found⟩ := Option.isSome_iff_exists.mp some
    exact ⟨g, found, .inr (List.mem_of_find?_eq_some found)⟩

end Node

/-! The first declaration of a name that is offered -/

namespace Scope

variable {file : FileId} {filter : ScopeFilter} {name : String}

theorem find_itemsOf (nodes : List Node) :
    Item.find name (itemsOf file filter nodes) =
      (nodes.find? fun n => filter.accepts (.node ⟨file, n⟩) && n.declaredName == some name).map
        fun n => .node ⟨file, n⟩ := by
  induction nodes with
  | nil => rfl
  | cons n rest ih =>
    simp only [itemsOf, List.map_cons, List.filter_cons, List.find?_cons] at ih ⊢
    cases accepted : filter.accepts (.node ⟨file, n⟩) with
    | false => simpa using ih
    | true =>
      cases called : n.declaredName with
      | none => simpa [Item.ofDeclaration?, Declaration.name?, called] using ih
      | some own =>
        by_cases same : own = name
        · simp [Item.ofDeclaration?, Declaration.name?, called, Item.find, same]
        · simpa [Item.ofDeclaration?, Declaration.name?, called, Item.find, same, beq_false_of_ne same] using ih

/-- Where something of a name is offered, what is found is that or something that is offered before it. -/
theorem exists_find_walkUp {e : Node} {o : Offer} (offered : o ∈ offers e)
    (accepted : filter.accepts (.node ⟨file, o.definition⟩) = true)
    (called : o.definition.declaredName = some name) :
    ∃ o' ∈ offers e, Item.find name (walkUp file e filter) = some (.node ⟨file, o'.definition⟩) ∧
      o'.definition.declaredName = some name ∧ (o' = o ∨ o'.Precedes o) := by
  obtain ⟨o', found⟩ : ∃ o', (offers e).find? (fun o =>
      filter.accepts (.node ⟨file, o.definition⟩) && o.definition.declaredName == some name) = some o' := by
    refine Option.isSome_iff_exists.mp (List.find?_isSome.mpr ⟨o, offered, ?_⟩)
    simp [accepted, called]
  obtain ⟨matching, before, behind, split, earlier⟩ := List.find?_eq_some_iff_append.mp found
  rw [Bool.and_eq_true, beq_iff_eq] at matching
  refine ⟨o', List.mem_of_find?_eq_some found, ?_, matching.2, ?_⟩
  · rw [walkUp, find_itemsOf, ← map_definition_offers, List.find?_map]
    simp only [Function.comp_def, found, Option.map_some]
  · have order := pairwise_offers e
    rw [split] at offered order
    rcases List.mem_append.mp offered with first | rest
    · have none := earlier o first
      simp [accepted, called] at none
    · rcases List.mem_cons.mp rest with rfl | later
      · exact .inl rfl
      · exact .inr (List.rel_of_pairwise_cons (List.pairwise_append.mp order).2.1 later)

end Scope

/-- The node to which the name of a declaration is confined. A name of a package is confined to none. -/
def Declaration.scope? : Declaration → Option Node
  | .node place => place.node.scope?
  | .directory _ => none

namespace Reference

open Node

variable {ws : Workspace} {r : Reference} {f : SourceFile} {d : Node} {name : String}

theorem accepts_definition (typed : r.kind = .typeName → d.kind = .typeSpec) (file : FileId) :
    r.filter.accepts (.node ⟨file, d⟩) = true := by
  unfold filter
  split
  · rename_i isType
    simp [ScopeFilter.accepts, typed isType]
  · rfl

/-- A name that is in scope at a reference by the rules for blocks hides all names from outside of the
function: the reference stands for something local to the function that declares it. This leaves out
statements with a label, and what lies inside the statement that declares the name. -/
theorem resolve_local (atFile : ws.file? r.file = some f) (inside : r.node ∈ f.root.descendants)
    (use : r.kind ≠ .importPath) (plain : r.qualifier? = none) (named : r.name? = some name)
    (known : d ∈ f.root.descendants) (called : d.declaredName = some name)
    (typed : r.kind = .typeName → d.kind = .typeSpec) (inScope : d.InScope r.node)
    (unlabeled : ∀ a ∈ d.belowScope, a.kind ≠ .labeledStatement)
    (outside : ∀ a ∈ d.belowScope, a.kind = .declarationStatement → a ∉ r.node.ancestors) :
    ∃ g d', d.function? = some g ∧ g ∈ r.node.ancestors ∧ g ∈ d'.ancestors ∧ d'.kind.isLocal = true ∧
      d'.declaredName = some name ∧ r.resolve ws = some (.node ⟨r.file, d'⟩) := by
  have below {a : Node} {kind : Kind} (is : a.kind = kind)
      (other : kind = .labeledStatement ∨ kind = .declarationStatement) (within : Open a d) :
      a ∈ d.belowScope := by
    refine within.mem_belowScope.resolve_left fun same => ?_
    rw [same] at is
    rcases inScope.kind with k | k | k <;> rcases other with o | o <;> cases k.symm.trans (is.trans o)
  obtain ⟨s, around, scope⟩ := inScope.around
  obtain ⟨o, offered, rfl, outer⟩ := exists_offer inside known called inScope
    (fun a is within => unlabeled a (below is (.inl rfl) within) is)
    (fun a up is within => outside a (below is (.inr rfl) within) is up) scope
  obtain ⟨o', offered', found, called', order⟩ :=
    Scope.exists_find_walkUp offered (accepts_definition typed r.file) called
  obtain ⟨g, function, top⟩ := exists_function_of_scope known scope
  have sound := Scope.sound_of_mem_offers inside offered'
  -- What is found first stands in the same node as the declaration or further in.
  have inward : o'.around ∈ o'.definition.ancestors := by
    have part := (mem_descendants_iff_below.mp sound.definition).mem_ancestors
    have parent := ancestors_of_parent (parent_of_mem_children sound.part)
    rcases List.mem_cons.mp part with same | up
    · rw [← same, parent]
      exact List.mem_cons_self ..
    · exact ancestors_trans up (parent ▸ List.mem_cons_self ..)
  have reached : o.around ∈ o'.definition.ancestors := by
    rcases order with rfl | further | ⟨same, _⟩
    · exact inward
    · exact ancestors_trans inward further
    · rwa [← same]
  have confined : s ∈ o'.definition.ancestors :=
    outer.elim (fun same => same ▸ reached) (ancestors_trans reached)
  refine ⟨g, o'.definition, function, ?_, ?_, sound.kind, called', ?_⟩
  · exact top.elim (fun same => same ▸ around) (ancestors_trans around)
  · exact top.elim (fun same => same ▸ confined) (ancestors_trans confined)
  · refine resolve_of_find_ownScope use plain named atFile ?_
    rw [ownScope, Item.find_append, found, Option.some_or]

theorem held_of_at? {file : FileId} {offset : Nat} (atFile : ws.file? file = some f)
    (found : at? ws file offset = some r) : r.file = file ∧ r.node ∈ f.root.descendants := by
  obtain ⟨⟨f', again, inside⟩, isReference⟩ := at?_spec found
  cases again.symm.trans atFile
  exact ⟨(ofNode?_spec isReference).1, inside⟩

/-- A variable of a loop that has the name of a variable of the package. -/
def looping : Workspace :=
  (({} : Workspace).setText ⟨"/p/a.go"⟩
    "package p\nvar x int\nfunc f()\x7bfor x:=1;;\x7b_=x\x7d\x7d\n").2

theorem resolve_local_looping :
    ∃ f r d, looping.file? ⟨0⟩ = some f ∧ at? looping ⟨0⟩ 42 = some r ∧ d ∈ f.root.descendants ∧ d.start = 33 ∧
      d.InScope r.node ∧ ∃ g d', d.function? = some g ∧ g ∈ r.node.ancestors ∧ g ∈ d'.ancestors ∧
        d'.kind.isLocal = true ∧ d'.declaredName = some "x" ∧
        r.resolve looping = some (.node ⟨r.file, d'⟩) := by
  have facts : ((looping.file? ⟨0⟩).any fun f => (at? looping ⟨0⟩ 42).any fun r =>
      f.root.descendants.any fun d => d.start == 33 && d.declaredName == some "x" && d.isInScope r.node &&
        d.belowScope.all (fun a => a.kind != .labeledStatement && a.kind != .declarationStatement) &&
        r.kind == .expr && r.name? == some "x" && r.qualifier?.isNone) = true := by decide +kernel
  simp only [Option.any_eq_true, List.any_eq_true, List.all_eq_true, Bool.and_eq_true, beq_iff_eq, bne_iff_ne,
    Option.isNone_iff_eq_none] at facts
  obtain ⟨f, atFile, r, atOffset, d, known, ⟨⟨⟨⟨⟨start, called⟩, checked⟩, statements⟩, kind⟩, named⟩, plain⟩ := facts
  obtain ⟨inFile, inside⟩ := held_of_at? atFile atOffset
  have inScope := inScope_of_isInScope known inside checked
  refine ⟨f, r, d, atFile, atOffset, known, start, inScope, resolve_local (inFile ▸ atFile) inside ?_ plain named known
    called ?_ inScope (fun a among => (statements a among).1) fun a among is => absurd is (statements a among).2⟩
  · simp [kind]
  · simp [kind]

/-- A function with a label, one with a group, and one with a type that refers to itself. -/
def overlooked : Workspace :=
  (({} : Workspace).setText ⟨"/p/a.go"⟩
    ("package p\nvar x int\ntype T int\nfunc f()\x7bL:x:=1;_=x\x7d\nfunc g()\x7bvar(x=1;y=x);_=y\x7d\n" ++
      "func h()\x7btype T struct\x7bnext*T\x7d\x7d\n")).2

/-- A name that is in scope by the rules for blocks need not be found: not if its statement has a label, and
not inside the statement that declares it, by another declaration of a group or by a type itself. -/
theorem resolve_not_local :
    ∃ f, overlooked.file? ⟨0⟩ = some f ∧ f.parse.ok = true ∧ ∀ offset ∈ [49, 71, 107],
      ∃ r d found, at? overlooked ⟨0⟩ offset = some r ∧ r.qualifier? = none ∧ d ∈ f.root.descendants ∧
        d.declaredName.isSome = true ∧ d.declaredName = r.name? ∧ (r.kind = .typeName → d.kind = .typeSpec) ∧
        d.InScope r.node ∧ r.resolve overlooked = some found ∧ found.file? = some ⟨0⟩ ∧ found.scope? = none := by
  have facts : ((overlooked.file? ⟨0⟩).any fun f => f.parse.ok && [49, 71, 107].all fun offset =>
      (at? overlooked ⟨0⟩ offset).any fun r => r.qualifier?.isNone && f.root.descendants.any (fun d =>
        d.declaredName.isSome && d.declaredName == r.name? && (r.kind != .typeName || d.kind == .typeSpec) &&
          d.isInScope r.node) &&
        (r.resolve overlooked).any fun found => found.file? == some ⟨0⟩ && found.scope?.isNone) = true := by
    decide +kernel
  simp only [Option.any_eq_true, List.any_eq_true, List.all_eq_true, Bool.and_eq_true, Bool.or_eq_true, beq_iff_eq,
    bne_iff_ne, Option.isNone_iff_eq_none] at facts
  obtain ⟨f, atFile, ok, each⟩ := facts
  refine ⟨f, atFile, ok, fun offset among => ?_⟩
  obtain ⟨r, atOffset, ⟨plain, d, known, ⟨⟨some, named⟩, typed⟩, checked⟩, found, resolved, inFile, top⟩ :=
    each offset among
  have inScope := inScope_of_isInScope known (held_of_at? atFile atOffset).2 checked
  exact ⟨r, d, found, atOffset, plain, known, some, named, fun isType => typed.resolve_left (not_not_intro isType),
    inScope, resolved, inFile, top⟩

end Reference

end GoNav
