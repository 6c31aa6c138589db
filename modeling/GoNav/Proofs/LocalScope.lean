import GoNav.Proofs.Declared
import GoNav.Proofs.Grammar.Holders
import GoNav.Proofs.Node.Ancestors

namespace GoNav

/-- The kinds of nodes to which the names introduced inside are confined. -/
def Kind.isScope : Kind → Bool
  | .block | .caseClause | .commClause | .ifStatement | .forStatement | .switchStatement
  | .functionDecl | .methodDecl | .functionLit => true
  | _ => false

/-- The kinds of nodes that introduce names inside functions. -/
def Kind.isLocal : Kind → Bool
  | .varDef | .constDef | .typeSpec | .paramDef | .receiver => true
  | _ => false

namespace Node

/-- The innermost node around a node to which names are confined. -/
def scope? (n : Node) : Option Node :=
  n.ancestors.find? (·.kind.isScope)

theorem scope?_of_child {n c : Node} (child : c ∈ n.children) :
    c.scope? = if n.kind.isScope then some n else n.scope? := by
  rw [scope?, ancestors_of_parent (parent_of_mem_children child), List.find?_cons]
  split <;> simp_all [scope?]

/-- The nodes below a part with nothing in between, the part included, to which names are confined. -/
inductive Open (part : Node) : Node → Prop
  | here : Open part part
  | child {n c : Node} (above : Open part n) (plain : n.kind.isScope = false) (child : c ∈ n.children) :
      Open part c

namespace Open

variable {part n c : Node} {kind : Kind}

theorem childrenOf (above : Open part n) (plain : n.kind.isScope = false) (member : c ∈ n.childrenOf kind) :
    Open part c :=
  above.child plain (List.mem_filter.mp member).1

theorem childWhere (above : Open part n) (plain : n.kind.isScope = false) {p : Kind → Bool}
    (found : n.childWhere p = some c) : Open part c :=
  above.child plain (List.mem_of_find?_eq_some found)

theorem flatMap_childrenOf {outer : Kind} (above : Open part n) (plain : n.kind.isScope = false)
    (plainOuter : outer.isScope = false) (member : c ∈ (n.childrenOf outer).flatMap (·.childrenOf kind)) :
    Open part c ∧ c.kind = kind := by
  obtain ⟨m, child, inner⟩ := List.mem_flatMap.mp member
  rw [← kind_of_mem_childrenOf child] at plainOuter
  exact ⟨(above.childrenOf plain child).childrenOf plainOuter inner, kind_of_mem_childrenOf inner⟩

theorem scope?_eq (above : Open part n) : n.scope? = part.scope? := by
  induction above with
  | here => rfl
  | child _ plain child ih => rw [scope?_of_child child, plain, if_neg Bool.false_ne_true, ih]

theorem mem_descendants (above : Open part n) : n ∈ part.descendants := by
  induction above with
  | here => exact self_mem_descendants part
  | child _ _ child ih => exact child_mem_descendants ih child

/-- A node to which names below a part are confined is around the part. -/
theorem mem_ancestors_of_isScope (above : Open part n) {s : Node} (around : s ∈ n.ancestors)
    (confines : s.kind.isScope = true) : s ∈ part.ancestors := by
  induction above with
  | here => exact around
  | child _ plain child ih =>
    rw [ancestors_of_parent (parent_of_mem_children child)] at around
    rcases List.mem_cons.mp around with rfl | further
    · rw [plain] at confines
      cases confines
    · exact ih further

end Open

end Node

namespace Scope

open Node

/-! The parts that introduce names -/

/-- The kinds of parts that introduce names for what comes after them. -/
def introducers : List Kind :=
  [.shortVarDecl, .rangeClause, .declarationStatement, .forClause, .signature, .receiver]

theorem localDeclared_open {part decl d : Node} (above : Open part decl) (member : d ∈ localDeclared decl) :
    Open part d ∧ d.kind.isLocal = true := by
  unfold localDeclared at member
  split at member
  · rename_i kind
    obtain ⟨below, is⟩ := above.flatMap_childrenOf (by rw [kind]; rfl) rfl member
    exact ⟨below, by simp [is, Kind.isLocal]⟩
  · rename_i kind
    obtain ⟨below, is⟩ := above.flatMap_childrenOf (by rw [kind]; rfl) rfl member
    exact ⟨below, by simp [is, Kind.isLocal]⟩
  · rename_i kind
    refine ⟨above.childrenOf (by rw [kind]; rfl) member, ?_⟩
    simp [kind_of_mem_childrenOf member, Kind.isLocal]
  · cases member

theorem introducedBy_open {part d : Node} (member : d ∈ introducedBy part) :
    Open part d ∧ d.kind.isLocal = true ∧ part.kind ∈ introducers := by
  unfold introducedBy at member
  split at member
  · rename_i kind
    refine ⟨Open.here.childrenOf (by rw [kind]; rfl) member, ?_⟩
    simp [kind_of_mem_childrenOf member, kind, Kind.isLocal, introducers]
  · rename_i kind
    refine ⟨Open.here.childrenOf (by rw [kind]; rfl) member, ?_⟩
    simp [kind_of_mem_childrenOf member, kind, Kind.isLocal, introducers]
  · rename_i kind
    obtain ⟨decl, child, inner⟩ := List.mem_flatMap.mp member
    obtain ⟨below, isLocal⟩ := localDeclared_open (Open.here.child (by rw [kind]; rfl) child) inner
    exact ⟨below, isLocal, by simp [kind, introducers]⟩
  · rename_i kind
    obtain ⟨below, is⟩ := Open.here.flatMap_childrenOf (by rw [kind]; rfl) rfl member
    exact ⟨below, by simp [is, kind, Kind.isLocal, introducers]⟩
  · rename_i kind
    have plain : part.kind.isScope = false := by rw [kind]; rfl
    obtain ⟨parameters, among, inner⟩ := List.mem_flatMap.mp member
    have given : Open part parameters ∧ parameters.kind = .parameters := by
      rcases List.mem_append.mp among with given | returned
      · have found := Option.mem_toList.mp given
        exact ⟨Open.here.childWhere plain found, kind_of_child found⟩
      · obtain ⟨result, first, second⟩ := Option.bind_eq_some_iff.mp (Option.mem_toList.mp returned)
        have plainResult : result.kind.isScope = false := by rw [kind_of_child first]; rfl
        exact ⟨(Open.here.childWhere plain first).childWhere plainResult second, kind_of_child second⟩
    obtain ⟨below, is⟩ := given.1.flatMap_childrenOf (by rw [given.2]; rfl) rfl inner
    exact ⟨below, by simp [is, kind, Kind.isLocal, introducers]⟩
  · rename_i kind
    split at member
    · cases List.mem_singleton.mp member
      exact ⟨.here, by simp [kind, Kind.isLocal, introducers]⟩
    · cases member
  · cases member

/-! Where names are confined -/

variable {f : SourceFile} {a part e : Node}

theorem exists_scope_of_labeled (inside : e ∈ f.root.descendants) (labeled : e.kind = .labeledStatement) :
    ∃ s, e.scope? = some s := by
  induction mem_descendants_iff_below.mp inside with
  | root => exact absurd (f.kind_root.symm.trans labeled) (by decide)
  | @child p c above child ih =>
    have outer := mem_descendants_iff_below.mpr above
    have holder := mem_holders outer child labeled rfl
    rw [scope?_of_child child]
    split
    · exact ⟨p, rfl⟩
    · rename_i plain
      -- The only statement that may stand around it without confining names has a label too.
      refine ih outer ?_
      simp only [Kind.statementHolders, List.mem_cons, List.not_mem_nil, or_false] at holder
      rcases holder with kind | kind | kind | kind <;> simp_all [Kind.isScope]

theorem exists_scope_of_forClause (inside : e ∈ f.root.descendants) (clause : e.kind = .forClause) :
    ∃ s, e.scope? = some s := by
  obtain ⟨p, _, child, holder⟩ := exists_holder inside clause (by decide) rfl
  refine ⟨p, ?_⟩
  rw [scope?_of_child child, List.mem_singleton.mp holder]
  rfl

/-- What a part introduces is confined to some node around it, unless it is all there is of the type of a
function or of a method of an interface. -/
theorem exists_scope_of_introducer (inside : a ∈ f.root.descendants) (child : part ∈ a.children)
    (introduces : part.kind ∈ introducers) :
    (∃ s, part.scope? = some s) ∨ a.kind.isBareSignature = true := by
  have held : ∀ kind ∈ introducers, (kind.holders?.any (·.all fun holder =>
      holder.isScope || holder == .labeledStatement || holder == .forClause || holder.isBareSignature)) = true := by
    decide
  obtain ⟨holders, known, each⟩ := (Option.any_eq_true _ _).mp (held part.kind introduces)
  have holder := List.all_eq_true.mp each a.kind (mem_holders inside child rfl known)
  simp only [Bool.or_eq_true, beq_iff_eq] at holder
  rw [scope?_of_child child]
  by_cases confines : a.kind.isScope = true
  · exact .inl ⟨a, if_pos confines⟩
  · rw [if_neg confines]
    rcases holder with ((confining | labeled) | clause) | bare
    · exact absurd confining confines
    · exact .inl (exists_scope_of_labeled inside labeled)
    · exact .inl (exists_scope_of_forClause inside clause)
    · exact .inr bare

/-! The order of what is offered -/

/-- A definition that is offered to an element, with the part that introduces it and the node around the
element in which that part stands. -/
structure Offer where
  around : Node
  part : Node
  definition : Node

/-- What is offered to an element, in its order. -/
def offers (element : Node) : List Offer :=
  (element.ancestors.takeWhile (·.kind != .sourceFile)).flatMap fun around =>
    (around.children.takeWhile (·.stop ≤ element.start)).reverse.flatMap fun part =>
      (introducedBy part).map (⟨around, part, ·⟩)

theorem map_definition_offers (element : Node) : (offers element).map Offer.definition = enclosing element := by
  simp [offers, enclosing, List.map_flatMap, Function.comp_def]

theorem mem_offers {o : Offer} (member : o ∈ offers e) :
    o.around ∈ e.ancestors ∧ o.part ∈ o.around.children ∧ o.part.stop ≤ e.start ∧
      o.definition ∈ introducedBy o.part := by
  obtain ⟨around, above, member⟩ := List.mem_flatMap.mp member
  obtain ⟨part, among, member⟩ := List.mem_flatMap.mp member
  obtain ⟨definition, introduced, rfl⟩ := List.mem_map.mp member
  have before := List.mem_reverse.mp among
  have ended := List.mem_takeWhile_imp before
  exact ⟨List.takeWhile_subset _ above, List.takeWhile_subset _ before, of_decide_eq_true ended, introduced⟩

/-- An offer comes before those from further out, and before those of earlier parts of the same node. -/
def Offer.Precedes (o o' : Offer) : Prop :=
  o'.around ∈ o.around.ancestors ∨ o.around = o'.around ∧ o'.part.index ≤ o.part.index

theorem pairwise_offers (element : Node) : (offers element).Pairwise Offer.Precedes := by
  refine List.pairwise_flatMap.mpr ⟨fun around _ => List.pairwise_flatMap.mpr ⟨fun part _ => ?_, ?_⟩, ?_⟩
  · exact List.pairwise_map.mpr (List.pairwise_of_forall fun _ _ => .inr ⟨rfl, Nat.le_refl _⟩)
  · have order : around.children.Pairwise fun c d => c.index < d.index :=
      pairwise_index_elementsIn around 0 around.start around.trees
    refine List.pairwise_reverse.mpr ((order.sublist (List.takeWhile_sublist _)).imp ?_)
    intro c d earlier o fromD o' fromC
    obtain ⟨_, _, rfl⟩ := List.mem_map.mp fromD
    obtain ⟨_, _, rfl⟩ := List.mem_map.mp fromC
    exact .inr ⟨rfl, Nat.le_of_lt earlier⟩
  · refine ((pairwise_ancestors element).sublist (List.takeWhile_sublist _)).imp ?_
    intro inner outer further o fromInner o' fromOuter
    obtain ⟨_, _, fromInner⟩ := List.mem_flatMap.mp fromInner
    obtain ⟨_, _, fromOuter⟩ := List.mem_flatMap.mp fromOuter
    obtain ⟨_, _, rfl⟩ := List.mem_map.mp fromInner
    obtain ⟨_, _, rfl⟩ := List.mem_map.mp fromOuter
    exact .inl further

/-- A definition of the file that is over before the element. All nodes to which it is confined are around the
element, so that it leaks out of none of them, and there is a nearest one. Only parameters that belong to nothing but
a type may be confined to no node at all, and these are offered only to an empty node at the end of that type. -/
structure Offer.Sound (f : SourceFile) (element : Node) (o : Offer) : Prop where
  around : o.around ∈ element.ancestors
  part : o.part ∈ o.around.children
  definition : o.definition ∈ o.part.descendants
  inside : o.definition ∈ f.root.descendants
  kind : o.definition.kind.isLocal = true
  ended : o.definition.stop ≤ element.start
  confined {s : Node} (outer : s ∈ o.definition.ancestors) (confines : s.kind.isScope = true) : s ∈ element.ancestors
  nearest (inhabited : o.around.kind.isBareSignature = true → element.start < element.stop) :
    ∃ s ∈ element.ancestors, o.definition.scope? = some s

theorem sound_of_mem_offers {o : Offer} (inside : e ∈ f.root.descendants) (member : o ∈ offers e) :
    o.Sound f e := by
  obtain ⟨around, part, ended, introduced⟩ := mem_offers member
  obtain ⟨below, isLocal, introduces⟩ := introducedBy_open introduced
  have outer : o.around ∈ f.root.descendants := Near.ancestor around f.root rfl inside
  have bounds := bounds_of_mem_descendants below.mem_descendants
  have confined {s : Node} (above : s ∈ o.definition.ancestors) (confines : s.kind.isScope = true) :
      s ∈ e.ancestors := by
    have ofPart := below.mem_ancestors_of_isScope above confines
    rw [ancestors_of_parent (parent_of_mem_children part)] at ofPart
    exact (suffix_ancestors around).subset ofPart
  refine ⟨around, part, below.mem_descendants, ?_, isLocal, by omega, confined, fun inhabited => ?_⟩
  · exact descendants_trans (child_mem_descendants outer part) below.mem_descendants
  · obtain ⟨s, found⟩ | bare := exists_scope_of_introducer outer part introduces
    · have nearest : o.definition.scope? = some s := below.scope?_eq.trans found
      have confines : s.kind.isScope = true := List.find?_some (p := fun n : Node => n.kind.isScope) nearest
      exact ⟨s, confined (List.mem_of_find?_eq_some nearest) confines, nearest⟩
    · -- The element lies in the only child of the type, which is over before it.
      obtain ⟨c, child, within⟩ := (mem_descendants_iff_below.mp inside).exists_child rfl around
      obtain rfl := child_unique outer bare child part
      have ends := (bounds_of_mem_descendants within).2
      have positive := inhabited bare
      omega

-- At the end of an unfinished function type there is an empty parameter, at which `a` is offered although no node
-- confines it.
example : (((SourceFile.ofText ⟨"/p/a.go"⟩ "package p\ntype F func(a int, b,").root.descendants.find? fun e =>
    e.kind == .paramDef && e.start == e.stop).any fun e =>
      (offers e).any fun o => o.definition.declaredName == some "a" && o.definition.scope?.isNone) = true := by
  decide +kernel

end Scope

end GoNav
