import GoNav.Proofs.NormalPath
import GoNav.Proofs.Placement
import GoNav.Scope

namespace GoNav

namespace Node

theorem token_spec {n : Node} {kind : Kind} {l : Leaf} (found : n.token kind = some l) :
    l ∈ n.tokens ∧ l.kind = kind :=
  ⟨List.mem_of_find?_eq_some found, eq_of_beq (List.find?_some (p := fun l : Leaf => l.kind == kind) found)⟩

/-- The kinds of nodes that introduce a name other than by an import. -/
def IsDefinition (n : Node) : Prop :=
  n.kind.declares.isSome ∧ n.kind ≠ .importSpec

end Node

namespace Declaration

/-- A declaration as a workspace has it: a node of one of its files, which introduces a name by a token
of its own, or that of the type that it embeds, or else a directory in its normal form. -/
def IsIn (ws : Workspace) : Declaration → Prop
  | .node place =>
    ws.Holds place ∧ place.node.kind.declares.isSome ∧
      (place.node.kind ≠ .anonFieldDef →
        ∃ l ∈ place.node.tokens, l.kind = .ident ∧ place.node.nameLeaf = some l)
  | .directory path => ∃ p : Path, path = p.normalize

/-- Whether a declaration is a package: its directory, or an import that is given a name. -/
def isPackage : Declaration → Bool
  | .node place => place.node.kind == .importSpec
  | .directory _ => true

variable {ws : Workspace}

theorem isIn_of_isDefinition {place : FileNode} {name : String} (held : ws.Holds place)
    (defines : place.node.IsDefinition) (named : place.node.declaredName = some name) :
    IsIn ws (.node place) := by
  refine ⟨held, defines.1, fun ownToken => ?_⟩
  have leaf : place.node.nameLeaf = place.node.identifier := by
    simp only [Node.nameLeaf]
    split
    · exact absurd ‹_› defines.2
    · exact absurd ‹_› ownToken
    · rfl
  have text : place.node.nameLeaf.map Leaf.text = some name := by
    simp only [Node.declaredName] at named
    split at named
    · exact absurd ‹_› defines.2
    · exact named
  obtain ⟨l, found, _⟩ := Option.map_eq_some_iff.mp text
  obtain ⟨token, ident⟩ := Node.token_spec (leaf.symm.trans found)
  exact ⟨l, token, ident, found⟩

/-- A declaration of a workspace that introduces a name and is no package. -/
structure Defines (ws : Workspace) (name : String) (d : Declaration) : Prop where
  isIn : d.IsIn ws
  name_eq : d.name? = some name
  not_package : d.isPackage = false

theorem defines_of_isDefinition {place : FileNode} {name : String} (held : ws.Holds place)
    (defines : place.node.IsDefinition) (named : place.node.declaredName = some name) :
    Defines ws name (.node place) :=
  ⟨isIn_of_isDefinition held defines named, named, beq_false_of_ne defines.2⟩

/-- Declarations of one workspace that are the same are so in every part. -/
theorem IsIn.eq_of_beq {d e : Declaration} (left : IsIn ws d) (right : IsIn ws e)
    (same : (d == e) = true) : d = e := by
  cases d with
  | node a =>
    cases e with
    | node b => exact congrArg node (left.1.eq_of_beq right.1 same)
    | directory q => cases same
  | directory p =>
    cases e with
    | node b => cases same
    | directory q =>
      obtain ⟨p, rfl⟩ := left
      obtain ⟨q, rfl⟩ := right
      exact congrArg directory (Path.normalize_eq_of_beq same)

end Declaration

/-! What encloses an element, and the top level of a file -/

namespace Scope

open Node

theorem childrenOf_spec {n m : Node} {kind : Kind} (declares : kind.declares.isSome ∧ kind ≠ .importSpec)
    (member : m ∈ n.childrenOf kind) : n.Near m ∧ m.IsDefinition := by
  refine ⟨.childrenOf member, ?_⟩
  rw [IsDefinition, kind_of_mem_childrenOf member]
  exact declares

theorem flatMap_childrenOf_spec {n m : Node} {outer kind : Kind}
    (declares : kind.declares.isSome ∧ kind ≠ .importSpec)
    (member : m ∈ (n.childrenOf outer).flatMap (·.childrenOf kind)) : n.Near m ∧ m.IsDefinition := by
  obtain ⟨spec, child, inside⟩ := List.mem_flatMap.mp member
  have within := childrenOf_spec declares inside
  exact ⟨(Near.childrenOf child).trans within.1, within.2⟩

theorem localDeclared_spec {n m : Node} (member : m ∈ localDeclared n) : n.Near m ∧ m.IsDefinition := by
  unfold localDeclared at member
  split at member
  · exact flatMap_childrenOf_spec (by decide) member
  · exact flatMap_childrenOf_spec (by decide) member
  · exact childrenOf_spec (by decide) member
  · cases member

theorem introducedBy_spec {n m : Node} (member : m ∈ introducedBy n) : n.Near m ∧ m.IsDefinition := by
  unfold introducedBy at member
  split at member
  · exact childrenOf_spec (by decide) member
  · exact childrenOf_spec (by decide) member
  · obtain ⟨declaration, child, inside⟩ := List.mem_flatMap.mp member
    have within := localDeclared_spec inside
    exact ⟨(Near.child child).trans within.1, within.2⟩
  · exact flatMap_childrenOf_spec (by decide) member
  · obtain ⟨parameters, child, inside⟩ := List.mem_flatMap.mp member
    have within : parameters.Near m ∧ m.IsDefinition := flatMap_childrenOf_spec (by decide) inside
    refine ⟨Near.trans ?_ within.1, within.2⟩
    rcases List.mem_append.mp child with given | returned
    · exact .childWhere (Option.mem_toList.mp given)
    · obtain ⟨result, first, second⟩ := Option.bind_eq_some_iff.mp (Option.mem_toList.mp returned)
      exact (Near.childWhere first).trans (.childWhere second)
  · rename_i receiver
    split at member
    · cases List.mem_singleton.mp member
      exact ⟨.refl n, by rw [IsDefinition, receiver]; decide⟩
    · cases member
  · cases member

theorem enclosing_spec {element m : Node} (member : m ∈ enclosing element) :
    element.Near m ∧ m.IsDefinition := by
  obtain ⟨ancestor, above, inside⟩ := List.mem_flatMap.mp member
  obtain ⟨part, among, introduced⟩ := List.mem_flatMap.mp inside
  have within := introducedBy_spec introduced
  have around := Near.ancestor (List.takeWhile_subset _ above)
  have child := Near.child (List.takeWhile_subset _ (List.mem_reverse.mp among))
  exact ⟨around.trans (child.trans within.1), within.2⟩

theorem topLevelSpecs_near {root spec : Node} {declaration kind : Kind}
    (member : spec ∈ root.topLevelSpecs declaration kind) : root.Near spec := by
  obtain ⟨outer, child, inside⟩ := List.mem_flatMap.mp member
  exact (Near.childrenOf child).trans (.childrenOf inside)

theorem topLevelDeclared_spec {root m : Node} (member : m ∈ topLevelDeclared root) :
    root.Near m ∧ m.IsDefinition := by
  have ofSpecs : ∀ {declaration spec kind : Kind}, kind.declares.isSome ∧ kind ≠ .importSpec →
      m ∈ (root.topLevelSpecs declaration spec).flatMap (·.childrenOf kind) →
        root.Near m ∧ m.IsDefinition := by
    intro declaration spec kind declares among
    obtain ⟨outer, top, inside⟩ := List.mem_flatMap.mp among
    have within := childrenOf_spec declares inside
    exact ⟨(topLevelSpecs_near top).trans within.1, within.2⟩
  simp only [topLevelDeclared, List.mem_append] at member
  rcases member with ((constant | var) | function) | typ
  · exact ofSpecs (by decide) constant
  · exact ofSpecs (by decide) var
  · exact childrenOf_spec (by decide) function
  · exact flatMap_childrenOf_spec (by decide) typ

end Scope

/-! The names of a scope -/

/-- An item whose declaration is in the workspace and has the name of the item. Of the names that no
identifier has, `..` may be that of an import whose directory is called otherwise. -/
def Item.IsIn (ws : Workspace) (item : Item) : Prop :=
  ∀ d, item.declaration = some d → d.IsIn ws ∧ (item.name ≠ ".." → d.name? = some item.name)

namespace Scope

variable {ws : Workspace} {file : FileId} {filter : ScopeFilter} {item : Item} {d : Declaration}

theorem mem_itemsOf {nodes : List Node} (member : item ∈ itemsOf file filter nodes) :
    ∃ n ∈ nodes, item.declaration = some (.node ⟨file, n⟩) ∧ n.declaredName = some item.name := by
  obtain ⟨d, accepted, made⟩ := List.mem_filterMap.mp member
  obtain ⟨n, among, rfl⟩ := List.mem_map.mp (List.mem_filter.mp accepted).1
  obtain ⟨name, named, rfl⟩ := Option.map_eq_some_iff.mp made
  exact ⟨n, among, rfl, named⟩

theorem itemsOf_defines {nodes : List Node}
    (defined : ∀ n ∈ nodes, ws.Holds ⟨file, n⟩ ∧ n.IsDefinition)
    (member : item ∈ itemsOf file filter nodes) (declared : item.declaration = some d) :
    d.Defines ws item.name := by
  obtain ⟨n, among, same, named⟩ := mem_itemsOf member
  cases declared.symm.trans same
  obtain ⟨held, defines⟩ := defined n among
  exact Declaration.defines_of_isDefinition held defines named

theorem topLevelOf_defines (member : item ∈ topLevelOf ws file filter)
    (declared : item.declaration = some d) : d.Defines ws item.name := by
  unfold topLevelOf at member
  split at member
  · cases member
  · rename_i f found
    refine itemsOf_defines (fun n among => ?_) member declared
    obtain ⟨near, defines⟩ := topLevelDeclared_spec among
    exact ⟨(Workspace.holds_root found).near near, defines⟩

end Scope

end GoNav
