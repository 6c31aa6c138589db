import GoNav.Proofs.Grammar.Building
import GoNav.Proofs.Grammar.Holders
import GoNav.Proofs.SearchBounds
import GoNav.Proofs.SelectorDepth
import GoNav.Proofs.Shadowing

namespace GoNav

/-! The qualifier of a type name -/

namespace Grammar

/-- What stands before the dot of a type name is a name, with nothing before it. -/
def BareQualifier (kind : Kind) (children : List Tree) : Prop :=
  kind = .typeReference → ∀ inner, .node .typeReference inner ∈ children → Tree.nodeKinds inner = []

theorem bareQualifier_of_ne {kind : Kind} (other : (kind != .typeReference) = true) (children : List Tree) :
    BareQualifier kind children :=
  fun same => absurd same (bne_iff_ne.mp other)

theorem not_mem_of_nodeKinds {trees inner : List Tree} {kind : Kind} (none : Tree.nodeKinds trees = []) :
    .node kind inner ∉ trees := by
  intro member
  have among : kind ∈ Tree.nodeKinds trees := List.mem_filterMap.mpr ⟨_, member, rfl⟩
  rw [none] at among
  cases among

theorem shapedAll_of_nodeKinds {shape : Kind → List Tree → Prop} {trees : List Tree}
    (none : Tree.nodeKinds trees = []) : Tree.ShapedAll shape trees := by
  refine Tree.shapedAll_iff.mpr fun t member => ?_
  cases t with
  | token => trivial
  | node kind inner => exact absurd member (not_mem_of_nodeKinds none)

theorem Does.nodeKinds_expect {n : Nat} {kind : Kind} {s t : State} {b : Bool}
    (done : Does n (.expect kind) s b t) : Tree.nodeKinds t.built = Tree.nodeKinds s.built := by
  rcases done.of_expect with ⟨_, _, rfl⟩ | ⟨_, _, rfl⟩
  · have split : Tree.nodeKinds s.bump.built =
        Tree.nodeKinds s.built ++ Tree.nodeKinds (s.upcoming.map State.leaf) := List.filterMap_append
    rw [split, nodeKinds_leaves, List.append_nil]
  · rfl

theorem Rule.buildsOnly_of_ne_typeReference {rule : Rule} (other : rule ≠ .typeReference) :
    rule.body.buildsOnly (· != .typeReference) = true := by
  cases rule with
  | typeReference => exact absurd rfl other
  | binary least => exact Rule.buildsOnly_binary (by decide) least
  | paramDecl named => cases named <;> rfl
  | _ => rfl

/-- A type name is built of one name, and of another one around it where a dot and a name follow. -/
theorem shapedAll_typeReference {n : Nat} {s t : State} {b : Bool}
    (done : Does n Rule.typeReference.body s b t) (kept : Tree.ShapedAll BareQualifier s.built) :
    Tree.ShapedAll BareQualifier t.built := by
  cases done with
  | marked inner =>
    refine shapedAll_append (shapedAll_flush kept) ?_
    cases inner with
    | seq named qualified =>
      cases named with
      | @node _ _ _ u _ _ name =>
        have bare : Tree.nodeKinds u.built = [] := name.nodeKinds_expect
        have plain : Tree.ShapedAll BareQualifier [.node .typeReference u.built] :=
          ⟨⟨fun _ _ member => absurd member (not_mem_of_nodeKinds bare), shapedAll_of_nodeKinds bare⟩, trivial⟩
        rcases qualified.of_branch with ⟨_, wrapped⟩ | ⟨_, stopped⟩
        · cases wrapped with
          | wrap _ more =>
            cases more with
            | seq dot last =>
              cases dot
              cases last
              refine ⟨⟨fun _ inner member => ?_, ?_⟩, trivial⟩
              · -- the only node among the children is the name before the dot
                have only : inner = u.built := by
                  simpa [State.bump, State.resume, State.inside, State.flush, gather, Cursor.skip,
                    State.leaf] using member
                rw [only, bare]
              · exact shapedAll_append (shapedAll_append plain (shapedAll_leaves _)) (shapedAll_leaves _)
        · cases stopped
          exact plain

theorem shapedAll_bareQualifier {n : Nat} {rule : Rule} {s t : State} {b : Bool}
    (done : Does n (.call rule) s b t) (tidy : s.Tidy) (kept : Tree.ShapedAll BareQualifier s.built) :
    Tree.ShapedAll BareQualifier t.built := by
  induction n generalizing rule s t b with
  | zero => cases done
  | succ n ih =>
    cases done with
    | call body =>
      by_cases special : rule = .typeReference
      · subst special
        exact shapedAll_typeReference body kept
      · exact body.shapedAll tidy_invariant (fun _ => bareQualifier_of_ne) ih
          (Rule.buildsOnly_of_ne_typeReference special) tidy kept

end Grammar

theorem Parse.bareQualifier (text : String) : (ofText text).tree.Shaped Grammar.BareQualifier := by
  obtain ⟨depth, answer, done⟩ := does_finalState (Token.scan text)
  refine ⟨Grammar.bareQualifier_of_ne rfl _, Grammar.shapedAll_flush ?_⟩
  exact Grammar.shapedAll_bareQualifier done (Grammar.Cursor.Tidy.ofTokens _) trivial

namespace Node

theorem children_of_nodeKinds {n : Node} (none : Tree.nodeKinds n.trees = []) : n.children = [] :=
  List.map_eq_nil_iff.mp ((nodeKinds_trees n).symm.trans none)

/-- The qualifier of a type name has no qualifier. -/
theorem child_of_typeReference {f : SourceFile} {n inner : Node} (inside : n ∈ f.root.descendants)
    (kind : n.kind = .typeReference) (qualified : n.child .typeReference = some inner) :
    inner.child .typeReference = none := by
  have shaped := Parse.bareQualifier f.text
  rw [← f.tree_root] at shaped
  have tree := (mem_elementsIn (mem_children.mp (List.mem_of_find?_eq_some qualified))).1
  rw [kind_of_child qualified] at tree
  have bare := shape_of_mem_descendants shaped inside kind inner.trees tree
  rw [child, childWhere, children_of_nodeKinds bare]
  rfl

end Node

/-! References to types that need no member -/

theorem Declaration.type?_of_typeSpec? {d : Declaration} {spec : FileNode} (isSpec : d.typeSpec? = some spec) :
    d.type? = spec.node.typeExpr.map (⟨spec.file, ·⟩) := by
  cases d with
  | directory path => cases isSpec
  | node place =>
    simp only [typeSpec?] at isSpec
    split at isSpec
    · rename_i kind
      cases isSpec
      simp [type?, Node.declaredType, eq_of_beq kind]
    · cases isSpec

namespace Scope

variable {ws : Workspace} {home file : FileId} {element : Node} {filter : ScopeFilter} {item : Item}
  {d : Declaration}

theorem accepts_of_mem_itemsOf {nodes : List Node} (member : item ∈ itemsOf file filter nodes)
    (declared : item.declaration = some d) : filter.accepts d = true := by
  obtain ⟨e, accepted, made⟩ := List.mem_filterMap.mp member
  obtain ⟨_, _, rfl⟩ := Option.map_eq_some_iff.mp made
  cases declared
  exact (List.mem_filter.mp accepted).2

/-- What a file shows where types are looked for is a type or a package. -/
theorem type_or_package {isLocal : Bool} (member : item ∈ ofFile ws home element file isLocal .types)
    (declared : item.declaration = some d) : d.typeSpec?.isSome = true ∨ d.isPackage = true := by
  cases d with
  | directory dir => exact .inr rfl
  | node place =>
    have sorted (accepted : ScopeFilter.types.accepts (.node place) = true) :
        (Declaration.node place).typeSpec?.isSome = true ∨ (Declaration.node place).isPackage = true := by
      rcases Bool.or_eq_true_iff.mp accepted with typeSpec | importSpec
      · exact .inl (by rw [Declaration.typeSpec?, if_pos typeSpec]; rfl)
      · exact .inr importSpec
    rcases ofFile_cases member declared with around | ⟨_, importSpec⟩ | top
    · exact sorted (accepts_of_mem_itemsOf around declared)
    · exact .inr (by simp [Declaration.isPackage, importSpec])
    · unfold topLevelOf at top
      split at top
      · cases top
      · exact sorted (accepts_of_mem_itemsOf top declared)

end Scope

namespace Reference

variable {ws : Workspace} {r : Reference} {d : Declaration} {name : String}

/-- What the name of a reference stands for in the files where it is looked for without a qualifier. -/
def inScope (ws : Workspace) (r : Reference) : Option Declaration :=
  (Scope.unqualifiedFiles ws r.file).findSome? fun entry => r.lookupIn ws entry.1 entry.2

/-- What the name of a reference stands for in the other files of a package. -/
def inPackage (ws : Workspace) (r : Reference) (target : Declaration) : Option Declaration :=
  (Scope.packageDirectory? ws target).bind fun dir =>
    ((ws.packageFiles dir).filter (· != r.file)).findSome? fun file => r.lookupIn ws file false

/-- What a name in a type stands for if only names are looked at, and no members of types: the name itself,
or behind a dot the name in the package that stands before it. -/
def byNames (ws : Workspace) (place : FileNode) : Option Declaration :=
  match place.node.child .typeReference with
  | none => inScope ws ⟨.typeName, place.file, place.node⟩
  | some inner =>
    (inScope ws ⟨.typeName, place.file, inner⟩).bind (inPackage ws ⟨.typeName, place.file, place.node⟩)

/-- Whether the qualifier of a name in a type stands for a type. -/
def isBehindType (ws : Workspace) (place : FileNode) : Bool :=
  ((place.node.child .typeReference).bind fun inner => ws.typeSpecOf ⟨place.file, inner⟩).isSome

theorem type_or_package_of_inScope (typeName : r.kind = .typeName) (found : r.inScope ws = some d) :
    d.typeSpec?.isSome = true ∨ d.isPackage = true := by
  obtain ⟨entry, _, looked⟩ := List.exists_of_findSome?_eq_some found
  obtain ⟨name, _, item, member, _, declared⟩ := exists_item_of_lookupIn looked
  have visible : item ∈ Scope.ofFile ws r.file r.node entry.1 entry.2 .types := by
    simpa [scopeIn, filter, typeName] using member
  exact Scope.type_or_package visible declared

theorem inScope_of_name?_eq_none (unnamed : r.name? = none) : r.inScope ws = none := by
  rw [inScope, List.findSome?_eq_none_iff]
  intro entry _
  rw [lookupIn, unnamed, Option.bind_none]

section

variable {m : Type → Type} [Bounded m] {members depth : Nat}

/-- A name in a type without a qualifier is found in one step. -/
theorem resolveWithinM_eq_inScope {file : FileId} {n : Node} (plain : n.child .typeReference = none) :
    resolveWithinM (m := m) ws members (depth + 1) ⟨.typeName, file, n⟩ = pure (inScope ws ⟨.typeName, file, n⟩) := by
  have unqualified : qualifier? ⟨.typeName, file, n⟩ = none := by rw [qualifier?, plain]; rfl
  unfold resolveWithinM
  cases named : name? ⟨.typeName, file, n⟩ with
  | none => rw [inScope_of_name?_eq_none named]
  | some name =>
    simp only [unqualified]
    rfl

theorem resolve_eq_inScope {file : FileId} {n : Node} (plain : n.child .typeReference = none) :
    resolve ws ⟨.typeName, file, n⟩ = inScope ws ⟨.typeName, file, n⟩ :=
  resolveWithinM_eq_inScope (m := Id) plain

/-- A name in a type that is not behind a type stands for what names alone tell, and this is found in two
steps. -/
theorem resolveWithinM_eq_byNames [LawfulMonad m] {place : FileNode} (refers : Members.IsTypeReference ws place)
    (apart : isBehindType ws place = false) :
    resolveWithinM (m := m) ws members (depth + 2) ⟨.typeName, place.file, place.node⟩ =
      pure (byNames ws place) := by
  rw [byNames]
  split
  · exact resolveWithinM_eq_inScope ‹_›
  · rename_i inner qualified
    obtain ⟨⟨f, atHand, inside⟩, kind⟩ := refers
    have plain := Node.child_of_typeReference inside kind qualified
    have before : qualifier? ⟨.typeName, place.file, place.node⟩ =
        some (.reference ⟨.typeName, place.file, inner⟩) := by
      rw [qualifier?, qualified]
      rfl
    unfold resolveWithinM
    cases named : name? ⟨.typeName, place.file, place.node⟩ with
    | none =>
      have nothing (target : Declaration) : inPackage ws ⟨.typeName, place.file, place.node⟩ target = none := by
        simp [inPackage, lookupIn, named]
      simp [nothing]
    | some name =>
      simp only [before, resolveWithinM_eq_inScope plain, Bounded.andThen, pure_bind]
      cases found : inScope ws ⟨.typeName, place.file, inner⟩ with
      | none => rfl
      | some target =>
        -- The qualifier is a type or a package, and by assumption it is no type.
        have package : target.isPackage = true := by
          refine (type_or_package_of_inScope rfl found).resolve_left fun isType => ?_
          have resolved : ws.typeSpecOf ⟨place.file, inner⟩ = target.typeSpec? := by
            rw [Workspace.typeSpecOf, resolve_eq_inScope plain, found, Option.bind_some]
          rw [isBehindType, qualified, Option.bind_some, resolved, isType] at apart
          cases apart
        simp only [resolveInM, Declaration.type?_of_isPackage package, Option.elim_none, Bounded.orElse, pure_bind]
        rfl

end

/-- Looking up a name in a type that is not behind a type comes to an end. -/
theorem namesSpec_byNames {place : FileNode} (refers : Members.IsTypeReference ws place)
    (apart : isBehindType ws place = false) :
    ws.NamesSpec place ((byNames ws place).bind Declaration.typeSpec?) := by
  refine ⟨0, 2, ?_⟩
  rw [Workspace.typeSpecWithin, typeSpecM]
  exact Option.bind_eq_some_iff.mpr ⟨_, resolveWithinM_eq_byNames (m := Option) refers apart, rfl⟩

/-- Behind a type, looking up a name is looking for a member. -/
theorem isSome_answer?_iff {place spec : FileNode} {inner : Node} (members depth : Nat)
    (refers : Members.IsTypeReference ws place) (qualified : place.node.child .typeReference = some inner)
    (behind : ws.typeSpecOf ⟨place.file, inner⟩ = some spec) :
    (answer? ws members (depth + 2) ⟨.typeName, place.file, place.node⟩).isSome = true ↔
      ∀ n name, spec.node.typeExpr = some n → place.node.identifierText = some name →
        (ws.memberWithin members (depth + 1) ⟨spec.file, n⟩ name).isSome = true := by
  obtain ⟨⟨f, atHand, inside⟩, kind⟩ := refers
  have plain := Node.child_of_typeReference inside kind qualified
  have before : qualifier? ⟨.typeName, place.file, place.node⟩ = some (.reference ⟨.typeName, place.file, inner⟩) := by
    rw [qualifier?, qualified]
    rfl
  obtain ⟨target, found, isSpec⟩ := Option.bind_eq_some_iff.mp behind
  rw [resolve_eq_inScope plain] at found
  have typed := Declaration.type?_of_typeSpec? isSpec
  unfold answer? resolveWithinM
  cases named : name? ⟨.typeName, place.file, place.node⟩ with
  | none =>
    have unnamed : place.node.identifierText = none := named
    simp [unnamed]
  | some name =>
    have called : place.node.identifierText = some name := named
    simp only [before, resolveWithinM_eq_inScope plain, found, Bounded.andThen, pure_bind, resolveInM, typed, called]
    cases spec.node.typeExpr with
    | none => simp [Bounded.orElse]
    | some n =>
      simp only [Option.map_some, Option.elim_some, Option.some.injEq, Bounded.isSome_orElse_pure]
      constructor
      · rintro ended _ _ rfl rfl
        exact ended
      · exact fun all => all n name rfl rfl

/-- Behind a type, looking up a name comes to an end exactly if looking for the member does. -/
theorem exists_namesSpec_iff {place spec : FileNode} {inner : Node} (refers : Members.IsTypeReference ws place)
    (qualified : place.node.child .typeReference = some inner)
    (behind : ws.typeSpecOf ⟨place.file, inner⟩ = some spec) :
    (∃ found, ws.NamesSpec place found) ↔ ∀ n name, spec.node.typeExpr = some n →
      place.node.identifierText = some name → ∃ found, ws.FindsMember ⟨spec.file, n⟩ name found := by
  obtain ⟨depth, deep⟩ := Workspace.referenceDepth_eq refers.1 (by rw [refers.2]; rfl)
  constructor
  · rintro ⟨found, members, within, looked⟩ n name typed named
    obtain ⟨d, answered, _⟩ := Option.bind_eq_some_iff.mp looked
    have known := (answer?_eq (standsIn_of_isTypeReference refers) answered).1
    rw [deep] at known
    have ended := (isSome_answer?_iff ws.memberDepth depth refers qualified behind).mp
      (Option.isSome_iff_exists.mpr ⟨d, known⟩) n name typed named
    obtain ⟨member, found⟩ := Option.isSome_iff_exists.mp ended
    exact ⟨member, _, _, found⟩
  · intro finds
    have ended : (answer? ws ws.memberDepth (depth + 3) ⟨.typeName, place.file, place.node⟩).isSome = true := by
      refine (isSome_answer?_iff ws.memberDepth (depth + 1) refers qualified behind).mpr fun n name typed named => ?_
      obtain ⟨found, members, within, looked⟩ := finds n name typed named
      have innerHeld : ws.Holds ⟨place.file, inner⟩ := refers.1.near (.childWhere qualified)
      have held := (Members.staysIn_typeSpecOf ws _ spec innerHeld behind).near (.childWhere typed)
      have known := (Workspace.memberWithin_eq held looked).1
      rw [deep] at known
      exact Option.isSome_iff_exists.mpr ⟨found, known⟩
    obtain ⟨d, answered⟩ := Option.isSome_iff_exists.mp ended
    exact ⟨_, _, _, Option.bind_eq_some_iff.mpr ⟨d, answered, rfl⟩⟩

end Reference

/-! Collecting members without a bound -/

namespace Members

variable {ws : Workspace} {typ target start last spec inner : FileNode} {first whole : List FileNode}
  {d : Declaration}

/-- What collecting the members of a type comes to, with no bound on how deep it goes: its fields, what
collecting those of the types that it embeds comes to, and its methods. The declarations on the way inward are
in a list, and none of them is entered again. -/
inductive Collects (ws : Workspace) : FileNode → List FileNode → List Declaration → Prop
  | typ {typ : FileNode} {path : List FileNode} (below : FileNode → List Declaration)
      (skips : ∀ reference ∈ embedded typ,
        (∀ spec n, entered? ws reference = some (spec, n) → path.contains spec = true) → below reference = [])
      (enters : ∀ reference ∈ embedded typ, ∀ spec n, entered? ws reference = some (spec, n) →
        path.contains spec = false → Collects ws ⟨spec.file, n⟩ (path ++ [spec]) (below reference)) :
      Collects ws typ path (fields typ ++ (embedded typ).flatMap below ++ methods ws typ)

/-- What is collected by way of an embedded type, at most so deep. -/
def collectBelow (ws : Workspace) (depth : Nat) (path : List FileNode) (reference : FileNode) :
    List Declaration :=
  (entered? ws reference).elim [] fun entry =>
    if path.contains entry.1 then []
    else collectIn ws ws.typeSpecOf depth (some entry.1) ⟨entry.1.file, entry.2⟩ (path ++ [entry.1])

theorem collectIn_succ (depth : Nat) (path : List FileNode) :
    collectIn ws ws.typeSpecOf (depth + 1) (owner? typ) typ path =
      fields typ ++ (embedded typ).flatMap (collectBelow ws depth path) ++ methods ws typ := by
  rw [collectIn_add_one, methods, ← List.append_assoc]
  congr 3
  refine List.flatMap_congr fun reference _ => ?_
  cases meant : ws.typeSpecOf reference with
  | none => simp [collectBelow, entered?, meant]
  | some spec => cases typed : spec.node.typeExpr <;> simp [collectBelow, entered?, meant, typed]

/-- A declaration of a type that is embedded is in the workspace. -/
theorem entered?_spec {reference : FileNode} {n : Node} (held : ws.Holds reference)
    (entered : entered? ws reference = some (spec, n)) :
    ws.typeSpecOf reference = some spec ∧ spec.node.typeExpr = some n ∧ ws.Holds spec ∧
      spec.node.kind = .typeSpec := by
  obtain ⟨_, meant, typed⟩ := Option.bind_eq_some_iff.mp entered
  obtain ⟨_, expr, same⟩ := Option.map_eq_some_iff.mp typed
  cases same
  exact ⟨meant, expr, staysIn_typeSpecOf ws reference spec held meant, kind_of_typeSpecOf meant⟩

theorem embeds_iff : Embeds ws typ spec inner ↔
    ∃ reference ∈ embedded typ, ∃ n, entered? ws reference = some (spec, n) ∧ inner = ⟨spec.file, n⟩ := by
  constructor
  · rintro ⟨reference, member, meant, n, typed, rfl⟩
    exact ⟨reference, member, n, entered?_eq meant typed, rfl⟩
  · rintro ⟨reference, member, n, entered, rfl⟩
    obtain ⟨_, meant, typed⟩ := Option.bind_eq_some_iff.mp entered
    obtain ⟨_, expr, same⟩ := Option.map_eq_some_iff.mp typed
    cases same
    exact ⟨reference, member, meant, n, expr, rfl⟩

/-- Collecting that may go deeper than there are declarations of types is collecting without a bound. -/
theorem collects_collectIn {depth : Nat} {path : List FileNode} (held : ws.Holds typ) (listed : Listed ws path)
    (enough : ws.memberDepth < path.length + depth + 2) :
    Collects ws typ path (collectIn ws ws.typeSpecOf depth (owner? typ) typ path) := by
  have bound := listed.length_lt
  induction depth generalizing typ path with
  | zero => omega
  | succ depth ih =>
    rw [collectIn_succ]
    refine .typ _ (fun reference member known => ?_) (fun reference member spec n entered fresh => ?_)
    · cases entered : entered? ws reference with
      | none => simp [collectBelow, entered]
      | some entry => simp [collectBelow, entered, known entry.1 entry.2 entered]
    · obtain ⟨_, typed, specHeld, kind⟩ := entered?_spec (embedded_holds held member) entered
      have further := listed.append fresh specHeld kind
      have below : collectBelow ws depth path reference =
          collectIn ws ws.typeSpecOf depth (owner? ⟨spec.file, n⟩) ⟨spec.file, n⟩ (path ++ [spec]) := by
        simp [collectBelow, entered, fresh, owner?_of_typeExpr kind typed]
      rw [below]
      refine ih (specHeld.near (.childWhere typed)) further ?_ further.length_lt
      rw [List.length_append, List.length_singleton]
      omega

theorem Collects.mem_own {path : List FileNode} {all : List Declaration} (collects : Collects ws typ path all)
    (own : d ∈ fields typ ∨ d ∈ methods ws typ) : d ∈ all := by
  cases collects with
  | typ below =>
    rcases own with field | method
    · exact List.mem_append_left _ (List.mem_append_left _ field)
    · exact List.mem_append_right _ method

/-- What is collected belongs to types that are reached by embedding. -/
theorem Collects.exists_owner {P : FileNode → Prop} {path : List FileNode} {all : List Declaration}
    (closed : ∀ {typ spec inner}, P typ → Embeds ws typ spec inner → P inner)
    (collects : Collects ws typ path all) (reached : P typ) (member : d ∈ all) :
    ∃ last, P last ∧ (d ∈ fields last ∨ d ∈ methods ws last) := by
  induction collects with
  | @typ typ path below skips enters ih =>
    rcases List.mem_append.mp member with inside | method
    · rcases List.mem_append.mp inside with field | deeper
      · exact ⟨typ, reached, .inl field⟩
      · obtain ⟨reference, embeds, among⟩ := List.mem_flatMap.mp deeper
        by_cases entered : ∃ spec n, entered? ws reference = some (spec, n) ∧ path.contains spec = false
        · obtain ⟨spec, n, entered, fresh⟩ := entered
          have next := closed reached (embeds_iff.mpr ⟨reference, embeds, n, entered, rfl⟩)
          exact ih reference embeds spec n entered fresh next among
        · rw [skips reference embeds fun spec n known =>
            Bool.not_eq_false _ ▸ fun fresh => entered ⟨spec, n, known, fresh⟩] at among
          cases among
    · exact ⟨typ, reached, .inr method⟩

/-! The ways that are followed -/

/-- The ways inward that collecting follows, on which no declaration is entered again. -/
inductive Followed (ws : Workspace) (start : FileNode) (first : List FileNode) :
    FileNode → List FileNode → Prop
  | here : Followed ws start first start first
  | enter {last spec inner : FileNode} {whole : List FileNode} (before : Followed ws start first last whole)
      (embeds : Embeds ws last spec inner) (fresh : whole.contains spec = false) :
      Followed ws start first inner (whole ++ [spec])

namespace Followed

theorem listed (way : Followed ws start first last whole) (held : ws.Holds start) (listed : Listed ws first) :
    ws.Holds last ∧ Listed ws whole := by
  induction way with
  | here => exact ⟨held, listed⟩
  | enter _ embeds fresh ih =>
    obtain ⟨reference, member, n, entered, rfl⟩ := embeds_iff.mp embeds
    obtain ⟨_, typed, specHeld, kind⟩ := entered?_spec (embedded_holds ih.1 member) entered
    exact ⟨specHeld.near (.childWhere typed), ih.2.append fresh specHeld kind⟩

/-- Whatever belongs to a type at the end of a way is collected from its start. -/
theorem exists_collects {all : List Declaration} (way : Followed ws start first last whole)
    (collects : Collects ws start first all) : ∃ part, Collects ws last whole part ∧ part ⊆ all := by
  induction way with
  | here => exact ⟨all, collects, List.Subset.refl _⟩
  | enter _ embeds fresh ih =>
    obtain ⟨part, collected, among⟩ := ih
    obtain ⟨reference, member, n, entered, rfl⟩ := embeds_iff.mp embeds
    cases collected with
    | typ below _ enters =>
      refine ⟨below reference, enters reference member _ n entered fresh, fun d inside => among ?_⟩
      exact List.mem_append_left _ (List.mem_append_right _ (List.mem_flatMap.mpr ⟨reference, member, inside⟩))

/-- A declaration on a way is one that the way starts with, or the end of a way itself. -/
theorem of_mem (way : Followed ws start first last whole) (among : spec ∈ whole) :
    spec ∈ first ∨ ∃ n part, spec.node.typeExpr = some n ∧ Followed ws start first ⟨spec.file, n⟩ part := by
  induction way with
  | here => exact .inl among
  | enter before embeds fresh ih =>
    rcases List.mem_append.mp among with earlier | last
    · exact ih earlier
    · rw [List.mem_singleton.mp last]
      have reached := before.enter embeds fresh
      obtain ⟨_, _, _, n, typed, rfl⟩ := embeds
      exact .inr ⟨n, _, typed, reached⟩

/-- Although no declaration is entered again, nothing that is embedded is left out: a declaration that is
skipped is the end of a way that is followed. -/
theorem embed (way : Followed ws start first last whole) (held : ws.Holds start) (listed : Listed ws first)
    (own : ∀ spec ∈ first, start.file = spec.file ∧ spec.node.typeExpr = some start.node)
    (embeds : Embeds ws last spec inner) : ∃ part, Followed ws start first inner part := by
  cases fresh : whole.contains spec with
  | false => exact ⟨_, way.enter embeds fresh⟩
  | true =>
    obtain ⟨lastHeld, along⟩ := way.listed held listed
    obtain ⟨reference, member, n, entered, rfl⟩ := embeds_iff.mp embeds
    obtain ⟨_, typed, specHeld, _⟩ := entered?_spec (embedded_holds lastHeld member) entered
    rw [List.contains_eq_any_beq] at fresh
    obtain ⟨other, among, same⟩ := List.any_eq_true.mp fresh
    have otherHeld := Workspace.holds_of_mem_nodes (List.mem_filter.mp (along.member among)).1
    obtain rfl := specHeld.eq_of_beq otherHeld same
    rcases way.of_mem among with starts | ⟨m, part, again, reached⟩
    · obtain ⟨file, again⟩ := own spec starts
      cases typed.symm.trans again
      exact ⟨first, file ▸ .here⟩
    · cases typed.symm.trans again
      exact ⟨part, reached⟩

end Followed

/-! A type, what it points to, and what it names -/

/-- A type as it stands in a declaration, a literal or another type. -/
def IsWritten (typ : FileNode) : Prop :=
  ∃ around : Node, around.typeExpr = some typ.node

theorem isWritten_of_pointee? (written : IsWritten typ) (pointed : pointee? typ = some target) :
    IsWritten target := by
  unfold pointee? at pointed
  split at pointed
  · rename_i pointer
    obtain ⟨n, inner, rfl⟩ := Option.map_eq_some_iff.mp pointed
    refine ⟨typ.node, ?_⟩
    simpa [Node.innerType, eq_of_beq pointer] using inner
  · exact Option.some.inj pointed ▸ written

/-- The declaration that a type belongs to is the one that has it as its right-hand side. -/
theorem owner?_eq_some_iff (written : IsWritten typ) :
    owner? typ = some spec ↔
      spec.node.kind = .typeSpec ∧ typ.file = spec.file ∧ spec.node.typeExpr = some typ.node := by
  obtain ⟨around, typed⟩ := written
  have parent : typ.node.parent = some around := Node.parent_of_mem_children (List.mem_of_find?_eq_some typed)
  constructor
  · intro owned
    obtain ⟨p, above, rfl⟩ := Option.map_eq_some_iff.mp owned
    obtain ⟨same, kind⟩ := Option.filter_eq_some_iff.mp above
    cases parent.symm.trans same
    exact ⟨eq_of_beq kind, rfl, typed⟩
  · rintro ⟨kind, file, expr⟩
    obtain ⟨_, n⟩ := typ
    cases file
    exact owner?_of_typeExpr kind expr

/-- Where collecting the members of a type starts: at the type itself, and at the type that it names. -/
inductive Start (ws : Workspace) (target : FileNode) : FileNode → Prop
  | own : Start ws target target
  | named {spec : FileNode} {n : Node} (names : (reference? target).bind (entered? ws) = some (spec, n)) :
      Start ws target ⟨spec.file, n⟩

theorem named_spec {n : Node} (held : ws.Holds target)
    (names : (reference? target).bind (entered? ws) = some (spec, n)) :
    spec.node.typeExpr = some n ∧ ws.Holds spec ∧ spec.node.kind = .typeSpec := by
  obtain ⟨reference, refers, entered⟩ := Option.bind_eq_some_iff.mp names
  obtain ⟨m, found, rfl⟩ := Option.map_eq_some_iff.mp refers
  exact (entered?_spec (held.near (.typeReference found)) entered).2

theorem Start.holds (starts : Start ws target start) (held : ws.Holds target) (written : IsWritten target) :
    ws.Holds start ∧ IsWritten start := by
  cases starts with
  | own => exact ⟨held, written⟩
  | named names =>
    obtain ⟨typed, specHeld, _⟩ := named_spec held names
    exact ⟨specHeld.near (.childWhere typed), _, typed⟩

/-- All members of a type, collected without a bound from the type or what it points to, and from the type
that this names. -/
inductive Lists (ws : Workspace) (typ : FileNode) : List Declaration → Prop
  | nothing (absent : pointee? typ = none) : Lists ws typ []
  | unnamed {target : FileNode} {own : List Declaration} (pointed : pointee? typ = some target)
      (names : (reference? target).bind (entered? ws) = none)
      (collects : Collects ws target (owner? target).toList own) : Lists ws typ own
  | named {target spec : FileNode} {n : Node} {own further : List Declaration}
      (pointed : pointee? typ = some target) (names : (reference? target).bind (entered? ws) = some (spec, n))
      (collects : Collects ws target (owner? target).toList own)
      (collectsNamed : Collects ws ⟨spec.file, n⟩ (owner? ⟨spec.file, n⟩).toList further) :
      Lists ws typ (own ++ further)

theorem exists_lists (held : ws.Holds typ) :
    ∃ declarations, Lists ws typ declarations ∧
      ws.members typ = declarations.filterMap Item.ofDeclaration? := by
  rw [Workspace.members, collect_eq]
  cases pointed : pointee? typ with
  | none => exact ⟨[], .nothing pointed, rfl⟩
  | some target =>
    have targetHeld := pointee?_holds held pointed
    have unbounded {typ : FileNode} (held : ws.Holds typ) : Collects ws typ (owner? typ).toList
        (collectIn ws ws.typeSpecOf ws.memberDepth (owner? typ) typ (owner? typ).toList) :=
      collects_collectIn held (listed_owner? held) (by omega)
    cases names : (reference? target).bind (entered? ws) with
    | none =>
      refine ⟨_, .unnamed pointed names (unbounded targetHeld), ?_⟩
      have nothing : ∀ spec, (reference? target).bind ws.typeSpecOf = some spec → spec.node.typeExpr = none := by
        intro spec meant
        obtain ⟨reference, refers, named⟩ := Option.bind_eq_some_iff.mp meant
        simpa [refers, entered?, named] using names
      cases meant : (reference? target).bind ws.typeSpecOf with
      | none => simp [meant]
      | some spec => simp [meant, nothing spec meant]
    | some entry =>
      obtain ⟨spec, n⟩ := entry
      obtain ⟨typed, specHeld, kind⟩ := named_spec targetHeld names
      have innerHeld : ws.Holds ⟨spec.file, n⟩ := specHeld.near (.childWhere typed)
      refine ⟨_, .named pointed names (unbounded targetHeld) (unbounded innerHeld), ?_⟩
      have meant : (reference? target).bind ws.typeSpecOf = some spec := by
        obtain ⟨reference, refers, entered⟩ := Option.bind_eq_some_iff.mp names
        obtain ⟨_, resolved, made⟩ := Option.bind_eq_some_iff.mp entered
        obtain ⟨_, _, same⟩ := Option.map_eq_some_iff.mp made
        cases same
        rw [refers, Option.bind_some, resolved]
      simp only [meant, typed, owner?_of_typeExpr kind typed, Option.toList_some]

/-! What the members of a type are -/

/-- A type embeds another one, by a name that leads to a declaration with a right-hand side. -/
def EmbedsSpec (ws : Workspace) (typ spec : FileNode) : Prop :=
  ∃ reference ∈ embedded typ, ws.NamesSpec reference (some spec) ∧ ∃ n, spec.node.typeExpr = some n

/-- The declarations of types from which a type has its members: the one whose right-hand side it is, the one
that it names, and those of the types that are embedded, from the type itself and from these on. -/
inductive Contributes (ws : Workspace) (target : FileNode) : FileNode → Prop
  | own {spec : FileNode} (kind : spec.node.kind = .typeSpec) (file : target.file = spec.file)
      (typed : spec.node.typeExpr = some target.node) : Contributes ws target spec
  | named {reference spec : FileNode} {n : Node} (refers : reference? target = some reference)
      (names : ws.NamesSpec reference (some spec)) (typed : spec.node.typeExpr = some n) :
      Contributes ws target spec
  | embedded {spec : FileNode} (embeds : EmbedsSpec ws target spec) : Contributes ws target spec
  | further {outer spec : FileNode} {n : Node} (before : Contributes ws target outer)
      (typed : outer.node.typeExpr = some n) (embeds : EmbedsSpec ws ⟨outer.file, n⟩ spec) :
      Contributes ws target spec

/-- The fields, embedded ones included, and the methods that are written in a type. -/
def written (typ : FileNode) : List Declaration :=
  fields typ ++ (methodSpecs typ).map fun n => .node ⟨typ.file, n⟩

/-- A member of a type: it is written in the type or in that of a declaration that contributes to it, or is a
method of such a declaration. -/
def IsMember (ws : Workspace) (target : FileNode) (d : Declaration) : Prop :=
  d ∈ written target ∨ ∃ spec, Contributes ws target spec ∧
    ((∃ n, spec.node.typeExpr = some n ∧ d ∈ written ⟨spec.file, n⟩) ∨ d ∈ (methodsOf ws spec).map .node)

theorem EmbedsSpec.embeds (embeds : EmbedsSpec ws typ spec) (held : ws.Holds typ) :
    ∃ inner, Embeds ws typ spec inner := by
  obtain ⟨reference, member, names, n, typed⟩ := embeds
  exact ⟨_, reference, member, names.typeSpecOf_eq (isTypeReference_of_mem_embedded held member), n, typed, rfl⟩

theorem EmbeddedEnd.embedsSpec (ends : EmbeddedEnd ws) (held : ws.Holds typ) (embeds : Embeds ws typ spec inner) :
    EmbedsSpec ws typ spec := by
  obtain ⟨reference, member, meant, n, typed, rfl⟩ := embeds
  obtain ⟨found, names⟩ := ends typ reference held member
  cases (names.typeSpecOf_eq (isTypeReference_of_mem_embedded held member)).symm.trans meant
  exact ⟨reference, member, names, n, typed⟩

/-- A type from which another one has members: itself, or the right-hand side of a declaration. -/
def Reached (ws : Workspace) (target typ : FileNode) : Prop :=
  typ = target ∨ ∃ spec n, Contributes ws target spec ∧ spec.node.kind = .typeSpec ∧
    spec.node.typeExpr = some n ∧ typ = ⟨spec.file, n⟩

theorem Reached.embed (ends : EmbeddedEnd ws) (held : ws.Holds typ) (reached : Reached ws target typ)
    (embeds : Embeds ws typ spec inner) : Reached ws target inner := by
  have step : Contributes ws target spec := by
    rcases reached with rfl | ⟨outer, n, contributes, _, typed, rfl⟩
    · exact .embedded (ends.embedsSpec held embeds)
    · exact .further contributes typed (ends.embedsSpec held embeds)
  obtain ⟨_, _, meant, n, typed, rfl⟩ := embeds
  exact .inr ⟨spec, n, step, kind_of_typeSpecOf meant, typed, rfl⟩

theorem Start.reached (starts : Start ws target start) (held : ws.Holds target)
    (ends : ∀ reference, reference? target = some reference → ∃ found, ws.NamesSpec reference found) :
    Reached ws target start := by
  cases starts with
  | own => exact .inl rfl
  | named names =>
    obtain ⟨reference, refers, entered⟩ := Option.bind_eq_some_iff.mp names
    obtain ⟨_, meant, made⟩ := Option.bind_eq_some_iff.mp entered
    obtain ⟨_, typed, same⟩ := Option.map_eq_some_iff.mp made
    cases same
    obtain ⟨found, looked⟩ := ends reference refers
    cases (looked.typeSpecOf_eq (isTypeReference_of_reference? held refers)).symm.trans meant
    exact .inr ⟨_, _, .named refers looked typed, kind_of_typeSpecOf meant, typed, rfl⟩

theorem mem_own_iff : d ∈ fields typ ∨ d ∈ methods ws typ ↔
    d ∈ written typ ∨ ∃ spec, owner? typ = some spec ∧ d ∈ (methodsOf ws spec).map .node := by
  rw [methods, written, List.mem_append, List.mem_append, or_assoc]
  refine or_congr_right (or_congr_right ?_)
  cases owner? typ <;> simp

/-- What belongs to a type that is reached is a member. -/
theorem Reached.isMember (reached : Reached ws target typ) (isWritten : IsWritten target)
    (own : d ∈ fields typ ∨ d ∈ methods ws typ) : IsMember ws target d := by
  rcases mem_own_iff.mp own with inType | ⟨spec, owned, method⟩
  · rcases reached with rfl | ⟨spec, n, contributes, _, typed, rfl⟩
    · exact .inl inType
    · exact .inr ⟨spec, contributes, .inl ⟨n, typed, inType⟩⟩
  · rcases reached with rfl | ⟨outer, n, contributes, kind, typed, rfl⟩
    · obtain ⟨kind, file, typed⟩ := (owner?_eq_some_iff isWritten).mp owned
      exact .inr ⟨spec, .own kind file typed, .inr method⟩
    · cases owned.symm.trans (owner?_of_typeExpr kind typed)
      exact .inr ⟨spec, contributes, .inr method⟩

/-- The type of each declaration that contributes is the end of a way that is followed. -/
theorem Contributes.exists_followed (contributes : Contributes ws target spec) (held : ws.Holds target)
    (isWritten : IsWritten target) :
    ∃ n start whole, spec.node.kind = .typeSpec ∧ spec.node.typeExpr = some n ∧ Start ws target start ∧
      Followed ws start (owner? start).toList ⟨spec.file, n⟩ whole := by
  have embed {start last spec : FileNode} {whole : List FileNode} (starts : Start ws target start)
      (way : Followed ws start (owner? start).toList last whole) (embeds : EmbedsSpec ws last spec) :
      ∃ n start whole, spec.node.kind = .typeSpec ∧ spec.node.typeExpr = some n ∧ Start ws target start ∧
        Followed ws start (owner? start).toList ⟨spec.file, n⟩ whole := by
    obtain ⟨startHeld, startWritten⟩ := starts.holds held isWritten
    have own : ∀ spec ∈ (owner? start).toList, start.file = spec.file ∧ spec.node.typeExpr = some start.node :=
      fun spec member => ((owner?_eq_some_iff startWritten).mp (Option.mem_toList.mp member)).2
    obtain ⟨inner, embeds⟩ := embeds.embeds (way.listed startHeld (listed_owner? startHeld)).1
    obtain ⟨part, reached⟩ := way.embed startHeld (listed_owner? startHeld) own embeds
    obtain ⟨_, _, meant, n, typed, rfl⟩ := embeds
    exact ⟨n, start, part, kind_of_typeSpecOf meant, typed, starts, reached⟩
  induction contributes with
  | own kind file typed =>
    obtain ⟨_, n⟩ := target
    cases file
    exact ⟨n, _, _, kind, typed, .own, .here⟩
  | named refers names typed =>
    have meant := names.typeSpecOf_eq (isTypeReference_of_reference? held refers)
    refine ⟨_, _, _, kind_of_typeSpecOf meant, typed, .named ?_, .here⟩
    rw [refers, Option.bind_some, entered?_eq meant typed]
  | embedded embeds => exact embed .own .here embeds
  | further _ typed embeds ih =>
    obtain ⟨n, start, whole, _, again, starts, way⟩ := ih
    cases typed.symm.trans again
    exact embed starts way embeds

/-- What is listed without a bound is exactly the members. -/
theorem Lists.mem_iff {declarations : List Declaration} (lists : Lists ws typ declarations)
    (held : ws.Holds typ) (isWritten : IsWritten typ) (ends : EmbeddedEnd ws) (endsNamed : NamedEnds ws typ) :
    d ∈ declarations ↔ ∃ target, pointee? typ = some target ∧ IsMember ws target d := by
  have sound {target start : FileNode} {all : List Declaration} (pointed : pointee? typ = some target)
      (starts : Start ws target start) (collects : Collects ws start (owner? start).toList all)
      (member : d ∈ all) : ∃ target, pointee? typ = some target ∧ IsMember ws target d := by
    have targetHeld := pointee?_holds held pointed
    have targetWritten := isWritten_of_pointee? isWritten pointed
    have closed {typ spec inner : FileNode} (reached : ws.Holds typ ∧ Reached ws target typ)
        (embeds : Embeds ws typ spec inner) : ws.Holds inner ∧ Reached ws target inner := by
      refine ⟨?_, reached.2.embed ends reached.1 embeds⟩
      obtain ⟨reference, among, meant, n, typed, rfl⟩ := embeds
      exact (staysIn_typeSpecOf ws reference spec (embedded_holds reached.1 among) meant).near (.childWhere typed)
    have first := starts.reached targetHeld fun reference => endsNamed target reference pointed
    obtain ⟨last, reached, own⟩ := collects.exists_owner (P := fun typ => ws.Holds typ ∧ Reached ws target typ)
      closed ⟨(starts.holds targetHeld targetWritten).1, first⟩ member
    exact ⟨target, pointed, reached.2.isMember targetWritten own⟩
  have complete {target : FileNode} (pointed : pointee? typ = some target)
      (all : ∀ start, Start ws target start →
        ∃ part, Collects ws start (owner? start).toList part ∧ part ⊆ declarations)
      (member : IsMember ws target d) : d ∈ declarations := by
    have ofWay {start last : FileNode} {whole : List FileNode} (starts : Start ws target start)
        (way : Followed ws start (owner? start).toList last whole)
        (own : d ∈ fields last ∨ d ∈ methods ws last) : d ∈ declarations := by
      obtain ⟨part, collects, among⟩ := all start starts
      obtain ⟨here, collected, inside⟩ := way.exists_collects collects
      exact among (inside (collected.mem_own own))
    rcases member with inType | ⟨spec, contributes, belongs⟩
    · exact ofWay .own .here (mem_own_iff.mpr (.inl inType))
    · obtain ⟨n, start, whole, kind, typed, starts, way⟩ :=
        contributes.exists_followed (pointee?_holds held pointed) (isWritten_of_pointee? isWritten pointed)
      refine ofWay starts way (mem_own_iff.mpr ?_)
      rcases belongs with ⟨m, again, inType⟩ | method
      · cases typed.symm.trans again
        exact .inl inType
      · exact .inr ⟨spec, owner?_of_typeExpr kind typed, method⟩
  cases lists with
  | nothing absent => simp [absent]
  | @unnamed target own pointed names collects =>
    refine ⟨sound pointed .own collects, ?_⟩
    rintro ⟨other, same, member⟩
    cases pointed.symm.trans same
    refine complete pointed (fun start starts => ?_) member
    cases starts with
    | own => exact ⟨_, collects, List.Subset.refl _⟩
    | named entered =>
      rw [names] at entered
      cases entered
  | @named target spec n own further pointed names collects collectsNamed =>
    constructor
    · intro member
      rcases List.mem_append.mp member with first | second
      · exact sound pointed .own collects first
      · exact sound pointed (.named names) collectsNamed second
    · rintro ⟨other, same, member⟩
      cases pointed.symm.trans same
      refine complete pointed (fun start starts => ?_) member
      cases starts with
      | own => exact ⟨_, collects, List.subset_append_left ..⟩
      | named entered =>
        cases names.symm.trans entered
        exact ⟨_, collectsNamed, List.subset_append_right ..⟩

theorem isWritten_of_type? (typed : d.type? = some typ) : IsWritten typ := by
  cases d with
  | directory path => cases typed
  | node place =>
    obtain ⟨n, found, rfl⟩ := Option.map_eq_some_iff.mp typed
    obtain ⟨around, written, _⟩ := Node.exists_around_of_declaredType found
    exact ⟨around, written⟩

end Members

namespace Workspace

variable {ws : Workspace}

/-- No type that a struct embeds is named behind another type. -/
def EmbedsByName (ws : Workspace) : Prop :=
  ∀ field ∈ ws.nodes, field.node.kind = .anonFieldDef → ∀ n, field.node.embeddedReference = some n →
    Reference.isBehindType ws ⟨field.file, n⟩ = false

theorem embedsByName_of_tests (tests : (ws.nodes.all fun field => field.node.kind != .anonFieldDef ||
    field.node.embeddedReference.all fun n => !Reference.isBehindType ws ⟨field.file, n⟩) = true) :
    ws.EmbedsByName := by
  intro field member kind n found
  have tested := List.all_eq_true.mp tests field member
  simpa [kind, found] using tested

/-- What is embedded is found by names alone. -/
theorem EmbedsByName.namesSpec (byName : ws.EmbedsByName) {typ reference : FileNode} (held : ws.Holds typ)
    (member : reference ∈ Members.embedded typ) :
    ws.NamesSpec reference ((Reference.byNames ws reference).bind Declaration.typeSpec?) := by
  have refers := Members.isTypeReference_of_mem_embedded held member
  obtain ⟨field, among, made⟩ := List.mem_filterMap.mp member
  obtain ⟨n, found, rfl⟩ := Option.map_eq_some_iff.mp made
  obtain ⟨decl, declared, anonymous⟩ := List.mem_filterMap.mp among
  have fieldHeld : ws.Holds ⟨typ.file, field⟩ :=
    held.near ((Members.fieldDecls_near declared).trans (.childWhere anonymous))
  have apart := byName _ (mem_nodes fieldHeld) (Node.kind_of_child anonymous) n found
  exact Reference.namesSpec_byNames refers apart

/-- Listing the members of a declared type leaves none out, also where types embed one another in a circle. It ends
exactly if the name can be looked up that the type, or what it points to, is. This always can be where the name is
not behind a type, and behind a type exactly if looking for the member ends. On each way inward that is followed no
declaration is entered twice, and the types that are embedded there are found by names alone. What is listed are the
members that have a name. -/
theorem members_complete {d : Declaration} {typ : FileNode} (byName : ws.EmbedsByName) (known : d.IsIn ws)
    (typed : d.type? = some typ) :
    ((∃ items, ws.ListsMembers typ items) ↔ Members.NamedEnds ws typ) ∧
    (∀ target reference, Members.pointee? typ = some target → Members.reference? target = some reference →
      (Reference.isBehindType ws reference = false → ∃ found, ws.NamesSpec reference found) ∧
      ∀ inner spec, reference.node.child .typeReference = some inner →
        ws.typeSpecOf ⟨reference.file, inner⟩ = some spec →
          ((∃ found, ws.NamesSpec reference found) ↔ ∀ n name, spec.node.typeExpr = some n →
            reference.node.identifierText = some name → ∃ found, ws.FindsMember ⟨spec.file, n⟩ name found)) ∧
    (∀ target start last whole, Members.pointee? typ = some target → Members.Start ws target start →
      Members.Followed ws start (Members.owner? start).toList last whole →
        whole.Nodup ∧ ∀ reference ∈ Members.embedded last,
          ws.NamesSpec reference ((Reference.byNames ws reference).bind Declaration.typeSpec?)) ∧
    ∀ items, ws.ListsMembers typ items → ws.members typ = items ∧
      ∀ item, item ∈ items ↔ ∃ target member, Members.pointee? typ = some target ∧
        Members.IsMember ws target member ∧ Item.ofDeclaration? member = some item := by
  have held := Reference.type?_holds known typed
  have isWritten := Members.isWritten_of_type? typed
  have ends : Members.EmbeddedEnd ws := fun typ reference held member => ⟨_, byName.namesSpec held member⟩
  refine ⟨Members.exists_listsMembers_iff ends held, fun target reference pointed refers => ?_,
    fun target start last whole pointed starts way => ?_, fun items lists => ?_⟩
  · have isReference := Members.isTypeReference_of_reference? (Members.pointee?_holds held pointed) refers
    refine ⟨fun apart => ⟨_, Reference.namesSpec_byNames isReference apart⟩, fun inner spec qualified behind => ?_⟩
    exact Reference.exists_namesSpec_iff isReference qualified behind
  · have targetHeld := Members.pointee?_holds held pointed
    have startHeld := (starts.holds targetHeld (Members.isWritten_of_pointee? isWritten pointed)).1
    obtain ⟨lastHeld, along⟩ := way.listed startHeld (Members.listed_owner? startHeld)
    exact ⟨along.distinct, fun reference member => byName.namesSpec lastHeld member⟩
  · have endsNamed := (Members.exists_listsMembers_iff ends held).mp ⟨items, lists⟩
    have same := lists.members_eq held
    obtain ⟨declarations, collected, listed⟩ := Members.exists_lists held
    have exactly (d : Declaration) := collected.mem_iff (d := d) held isWritten ends endsNamed
    refine ⟨same, fun item => ?_⟩
    rw [← same, listed, List.mem_filterMap]
    constructor
    · rintro ⟨member, among, made⟩
      obtain ⟨target, pointed, isMember⟩ := (exactly member).mp among
      exact ⟨target, member, pointed, isMember, made⟩
    · rintro ⟨target, member, pointed, isMember, made⟩
      exact ⟨member, (exactly member).mpr ⟨target, pointed, isMember⟩, made⟩

/-- Two structs that embed each other, and a method. -/
def circling : Workspace :=
  (({} : Workspace).setText ⟨"/p/a.go"⟩
    "package p\ntype A struct\x7bB\x7d\ntype B struct\x7b*A\x7d\nfunc(B)M()\x7b\x7d\n").2

theorem members_complete_circling :
    ∃ r d typ, Reference.at? circling ⟨0⟩ 43 = some r ∧ r.resolve circling = some d ∧ d.type? = some typ ∧
      circling.EmbedsByName ∧ ∃ items, circling.ListsMembers typ items ∧ items.map Item.name = ["B", "A", "M"] ∧
      ∀ item, item ∈ items ↔ ∃ target member, Members.pointee? typ = some target ∧
        Members.IsMember circling target member ∧ Item.ofDeclaration? member = some item := by
  have facts : ((Reference.at? circling ⟨0⟩ 43).any fun r => (r.resolve circling).any fun d =>
      d.type?.any fun typ => (circling.membersWithin circling.memberDepth circling.referenceDepth typ).any fun items =>
        items.map Item.name == ["B", "A", "M"]) = true := by decide +kernel
  simp only [Option.any_eq_true, beq_iff_eq] at facts
  obtain ⟨r, atOffset, d, found, typ, typed, items, listed, names⟩ := facts
  obtain ⟨held, isReference⟩ := Reference.at?_spec atOffset
  rw [← (Reference.ofNode?_spec isReference).1] at held
  have known := (Reference.faithful_resolve circling r d held found).1
  have lists : circling.ListsMembers typ items := ⟨_, _, listed⟩
  have byName : circling.EmbedsByName := embedsByName_of_tests (by decide +kernel)
  exact ⟨r, d, typ, atOffset, found, typed, byName, items, lists, names,
    ((members_complete byName known typed).2.2.2 items lists).2⟩

/-- Two structs that embed each other, and a type that is named behind one of them. -/
def searching : Workspace :=
  (({} : Workspace).setText ⟨"/p/a.go"⟩
    "package p\ntype A struct\x7bB\x7d\ntype B struct\x7bA\x7d\ntype C A.x\nvar v C\n").2

/-- Looking up the name of a type need not end: behind a type it is looking for a member, which goes round where
types embed one another in a circle. -/
theorem members_endless :
    ∃ r d typ, Reference.at? searching ⟨0⟩ 61 = some r ∧ r.resolve searching = some d ∧ d.type? = some typ ∧
      d.IsIn searching ∧ searching.EmbedsByName ∧ ¬ ∃ items, searching.ListsMembers typ items := by
  have facts : ((Reference.at? searching ⟨0⟩ 61).any fun r => (r.resolve searching).any fun d =>
      d.type?.any fun typ => !searching.membersEnd typ) = true := by decide +kernel
  simp only [Option.any_eq_true, Bool.not_eq_true'] at facts
  obtain ⟨r, atOffset, d, found, typ, typed, endless⟩ := facts
  obtain ⟨held, isReference⟩ := Reference.at?_spec atOffset
  rw [← (Reference.ofNode?_spec isReference).1] at held
  have known := (Reference.faithful_resolve searching r d held found).1
  refine ⟨r, d, typ, atOffset, found, typed, known, embedsByName_of_tests (by decide +kernel), fun lists => ?_⟩
  rw [← membersEnd_iff (Reference.type?_holds known typed), endless] at lists
  cases lists

end Workspace

end GoNav
