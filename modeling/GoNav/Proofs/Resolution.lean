import GoNav.Proofs.VisibleNames
import GoNav.Resolve

namespace GoNav

/-! Members -/

namespace Members

variable {ws : Workspace} {specOf : FileNode → Option FileNode} {name : String} {typ : FileNode}
  {d : Declaration}

theorem named_defines {nodes : List FileNode}
    (defined : ∀ place ∈ nodes, ws.Holds place ∧ place.node.IsDefinition)
    (found : named name nodes = some d) : d.Defines ws name := by
  obtain ⟨place, first, rfl⟩ := Option.map_eq_some_iff.mp found
  obtain ⟨held, defines⟩ := defined place (List.mem_of_find?_eq_some first)
  have called := List.find?_some (p := fun place : FileNode => place.node.declaredName == some name) first
  exact Declaration.defines_of_isDefinition held defines (eq_of_beq called)

theorem fieldDecls_near {field : Node} (member : field ∈ fieldDecls typ) : typ.node.Near field := by
  unfold fieldDecls at member
  split at member
  · exact .childrenOf member
  · cases member

theorem ownFields_spec {field : Node} (member : field ∈ ownFields typ) :
    typ.node.Near field ∧ field.IsDefinition := by
  obtain ⟨decl, among, inside⟩ := List.mem_flatMap.mp member
  rcases List.mem_append.mp inside with named | embedded
  · have within := Scope.childrenOf_spec (by decide) named
    exact ⟨(fieldDecls_near among).trans within.1, within.2⟩
  · have found := Option.mem_toList.mp embedded
    refine ⟨(fieldDecls_near among).trans (.childWhere found), ?_⟩
    rw [Node.IsDefinition, Node.kind_of_child found]
    decide

theorem embedded_holds {reference : FileNode} (held : ws.Holds typ) (member : reference ∈ embedded typ) :
    ws.Holds reference := by
  obtain ⟨field, among, found⟩ := List.mem_filterMap.mp member
  obtain ⟨decl, inside, child⟩ := List.mem_filterMap.mp among
  obtain ⟨n, inner, rfl⟩ := Option.map_eq_some_iff.mp found
  exact held.near ((fieldDecls_near inside).trans ((Node.Near.childWhere child).trans (.embeddedReference inner)))

theorem methodSpecs_spec {method : Node} (member : method ∈ methodSpecs typ) :
    typ.node.Near method ∧ method.IsDefinition := by
  unfold methodSpecs at member
  split at member
  · exact Scope.childrenOf_spec (by decide) member
  · cases member

theorem methodsOf_spec {spec method : FileNode} (member : method ∈ methodsOf ws spec) :
    ws.Holds method ∧ method.node.IsDefinition := by
  simp only [methodsOf] at member
  split at member
  · obtain ⟨id, _, inside⟩ := List.mem_flatMap.mp member
    obtain ⟨n, among, chosen⟩ := List.mem_filterMap.mp inside
    split at chosen
    · cases chosen
      cases found : ws.file? id with
      | none => simp [found] at among
      | some f =>
        simp only [found, Option.map_some, Option.getD_some] at among
        have within := Scope.childrenOf_spec (by decide) among
        exact ⟨(Workspace.holds_root found).near within.1, within.2⟩
    · cases chosen
  · cases member

/-- References to types lead from nodes of the workspace to nodes of the workspace. -/
def StaysIn (ws : Workspace) (specOf : FileNode → Option FileNode) : Prop :=
  ∀ place spec, ws.Holds place → specOf place = some spec → ws.Holds spec

theorem search_defines (stays : StaysIn ws specOf) {depth : Nat} (held : ws.Holds typ)
    (found : search ws specOf name depth typ = some d) : d.Defines ws name := by
  induction depth generalizing typ with
  | zero => cases found
  | succ depth ih =>
    rw [search_add_one] at found
    rcases Option.or_eq_some_iff.mp found with own | ⟨_, further⟩
    · refine named_defines (fun place member => ?_) own
      obtain ⟨field, among, rfl⟩ := List.mem_map.mp member
      exact ⟨held.near (ownFields_spec among).1, (ownFields_spec among).2⟩
    · rcases Option.or_eq_some_iff.mp further with promoted | ⟨_, method⟩
      · obtain ⟨reference, among, inner⟩ := List.exists_of_findSome?_eq_some promoted
        obtain ⟨spec, named, typed⟩ := Option.bind_eq_some_iff.mp inner
        obtain ⟨inside, expr, searched⟩ := Option.bind_eq_some_iff.mp typed
        split at searched
        · cases searched
        · have specHeld := stays reference spec (embedded_holds held among) named
          exact ih (specHeld.near (.childWhere expr)) searched
      · rcases Option.or_eq_some_iff.mp method with listed | ⟨_, declared⟩
        · refine named_defines (fun place member => ?_) listed
          obtain ⟨spec, among, rfl⟩ := List.mem_map.mp member
          exact ⟨held.near (methodSpecs_spec among).1, (methodSpecs_spec among).2⟩
        · obtain ⟨spec, _, chosen⟩ := Option.bind_eq_some_iff.mp declared
          exact named_defines (fun place member => methodsOf_spec member) chosen

theorem pointee?_holds {target : FileNode} (held : ws.Holds typ) (found : pointee? typ = some target) :
    ws.Holds target := by
  unfold pointee? at found
  split at found
  · obtain ⟨inner, pointed, rfl⟩ := Option.map_eq_some_iff.mp found
    exact held.near (.innerType pointed)
  · cases found
    exact held

/-- The member of a type of the workspace is a definition under that name. -/
theorem find_defines (stays : StaysIn ws specOf) {depth : Nat} (held : ws.Holds typ)
    (found : find ws specOf depth typ name = some d) : d.Defines ws name := by
  rw [find_eq] at found
  rcases Option.or_eq_some_iff.mp found with own | ⟨_, named⟩
  · exact search_defines stays held own
  · obtain ⟨target, pointed, further⟩ := Option.bind_eq_some_iff.mp named
    obtain ⟨reference, refers, inner⟩ := Option.bind_eq_some_iff.mp further
    obtain ⟨spec, meant, typed⟩ := Option.bind_eq_some_iff.mp inner
    obtain ⟨inside, expr, searched⟩ := Option.bind_eq_some_iff.mp typed
    split at searched
    · cases searched
    · obtain ⟨n, found, rfl⟩ := Option.map_eq_some_iff.mp refers
      have targetHeld := pointee?_holds held pointed
      have specHeld := stays _ spec (targetHeld.near (.typeReference found)) meant
      exact search_defines stays (specHeld.near (.childWhere expr)) searched

end Members

/-! References -/

namespace Reference

variable {ws : Workspace} {r : Reference} {d : Declaration} {depth : Nat}

/-- References of the workspace stand for what it declares, and under their own name unless they are
the path of an import. -/
def Faithful (ws : Workspace) (resolve : Reference → Option Declaration) : Prop :=
  ∀ r d, ws.Holds ⟨r.file, r.node⟩ → resolve r = some d →
    d.IsIn ws ∧ (r.kind ≠ .importPath → d.name? = r.name?)

theorem type?_holds {typ : FileNode} (known : d.IsIn ws) (typed : d.type? = some typ) : ws.Holds typ := by
  cases d with
  | directory path => cases typed
  | node place =>
    obtain ⟨n, found, rfl⟩ := Option.map_eq_some_iff.mp typed
    exact known.1.near (.declaredType found)

/-- What stands before the dot of a reference is of the same sort, and stands near it. -/
theorem qualifier?_cases {q : Qualifier} (qualified : r.qualifier? = some q) :
    r.kind ≠ .importPath ∧ (q = .other ∨ ∃ n, r.node.Near n ∧
      (q = .reference ⟨r.kind, r.file, n⟩ ∨ q = .literal ⟨r.file, n⟩)) := by
  unfold qualifier? at qualified
  split at qualified
  · cases qualified
  · rename_i typeName
    obtain ⟨n, found, made⟩ := Option.map_eq_some_iff.mp qualified
    rw [typeName]
    exact ⟨nofun, Or.inr ⟨n, .childWhere found, Or.inl made.symm⟩⟩
  · rename_i expr
    obtain ⟨e, found, made⟩ := Option.map_eq_some_iff.mp qualified
    rw [expr]
    refine ⟨nofun, ?_⟩
    split at made
    · exact Or.inr ⟨e, .childWhere found, Or.inl made.symm⟩
    · split at made
      · rename_i typ literal
        exact Or.inr ⟨typ, (Node.Near.childWhere found).trans (.literalType literal), Or.inr made.symm⟩
      · exact Or.inl made.symm

/-- The type declaration that a reference in a type names, where at most `depth` references have to be
resolved one for the other. -/
def specWithin (ws : Workspace) (depth : Nat) (place : FileNode) : Option FileNode :=
  (resolveWithin ws depth ⟨.typeName, place.file, place.node⟩).bind Declaration.typeSpec?

theorem Faithful.staysIn (faithful : Faithful ws (resolveWithin ws depth)) :
    Members.StaysIn ws (specWithin ws depth) := by
  intro place spec held found
  obtain ⟨d, resolved, isSpec⟩ := Option.bind_eq_some_iff.mp found
  have known := (faithful _ d held resolved).1
  cases d with
  | directory path => cases isSpec
  | node target =>
    simp only [Declaration.typeSpec?] at isSpec
    split at isSpec
    · cases isSpec
      exact known.1
    · cases isSpec

/-- How a reference in an expression or a type is resolved, by what stands before its dot. -/
theorem resolveWithin_use {name : String} (use : r.kind ≠ .importPath) (named : r.name? = some name) :
    resolveWithin ws (depth + 1) r =
      match r.qualifier? with
      | none =>
        (Scope.unqualifiedFiles ws r.file).findSome? fun (file, isLocal) => r.lookupIn ws file isLocal
      | some (.reference inner) =>
        (resolveWithin ws depth inner).bind fun target => r.resolveIn ws (specWithin ws depth) target name
      | some (.literal typ) => Members.find ws (specWithin ws depth) ws.memberDepth typ name
      | some .other => none := by
  rw [resolveWithin_add_one]
  split
  · rename_i path
    exact absurd path use
  · rw [named]
    rfl

theorem resolveIn_defines {specOf : FileNode → Option FileNode} {target : Declaration} {name : String}
    (stays : Members.StaysIn ws specOf) (known : target.IsIn ws) (named : r.name? = some name)
    (found : r.resolveIn ws specOf target name = some d) : d.Defines ws name := by
  rw [resolveIn_eq] at found
  rcases Option.or_eq_some_iff.mp found with member | ⟨_, packaged⟩
  · obtain ⟨typ, typed, chosen⟩ := Option.bind_eq_some_iff.mp member
    exact Members.find_defines stays (type?_holds known typed) chosen
  · obtain ⟨dir, _, inFiles⟩ := Option.bind_eq_some_iff.mp packaged
    obtain ⟨file, _, looked⟩ := List.exists_of_findSome?_eq_some inFiles
    obtain ⟨own, same, defines⟩ := lookupIn_defines looked
    cases named.symm.trans same
    exact defines

theorem exists_name (use : r.kind ≠ .importPath) (found : resolveWithin ws depth r = some d) :
    ∃ name, r.name? = some name := by
  cases depth with
  | zero => cases found
  | succ depth =>
    rw [resolveWithin_add_one] at found
    split at found
    · rename_i path
      exact absurd path use
    · obtain ⟨name, named, _⟩ := Option.bind_eq_some_iff.mp found
      exact ⟨name, named⟩

/-- A reference with a qualifier stands for a definition under its name, and for no package. -/
theorem qualified_defines {name : String} {q : Qualifier} (faithful : Faithful ws (resolveWithin ws depth))
    (held : ws.Holds ⟨r.file, r.node⟩) (qualified : r.qualifier? = some q) (named : r.name? = some name)
    (found : resolveWithin ws (depth + 1) r = some d) : d.Defines ws name := by
  obtain ⟨use, what⟩ := qualifier?_cases qualified
  rw [resolveWithin_use use named, qualified] at found
  rcases what with rfl | ⟨n, near, rfl | rfl⟩
  · cases found
  · obtain ⟨target, resolved, further⟩ := Option.bind_eq_some_iff.mp found
    have known := (faithful ⟨r.kind, r.file, n⟩ target (held.near near) resolved).1
    exact resolveIn_defines faithful.staysIn known named further
  · exact Members.find_defines faithful.staysIn (held.near near) found

theorem Faithful.succ (faithful : Faithful ws (resolveWithin ws depth)) :
    Faithful ws (resolveWithin ws (depth + 1)) := by
  intro r d held found
  by_cases path : r.kind = .importPath
  · simp only [resolveWithin_add_one, path] at found
    obtain ⟨dir, imported, rfl⟩ := Option.map_eq_some_iff.mp found
    obtain ⟨root, normal⟩ := Workspace.importDirectory?_eq imported
    exact ⟨⟨root.join ⟨r.node.unquoted⟩, normal⟩, fun use => absurd path use⟩
  · obtain ⟨name, named⟩ := exists_name path found
    cases qualified : r.qualifier? with
    | none =>
      rw [resolveWithin_use path named, qualified] at found
      obtain ⟨entry, _, looked⟩ := List.exists_of_findSome?_eq_some found
      have known := lookupIn_isIn held looked
      exact ⟨known.1, fun _ => known.2⟩
    | some q =>
      have defines := qualified_defines faithful held qualified named found
      exact ⟨defines.isIn, fun _ => defines.name_eq.trans named.symm⟩

theorem faithful_resolveWithin (ws : Workspace) (depth : Nat) : Faithful ws (resolveWithin ws depth) := by
  induction depth with
  | zero => exact fun _ _ _ found => nomatch found
  | succ depth ih => exact ih.succ

theorem faithful_resolve (ws : Workspace) : Faithful ws (resolve ws) :=
  faithful_resolveWithin ws ws.referenceDepth

end Reference

end GoNav
