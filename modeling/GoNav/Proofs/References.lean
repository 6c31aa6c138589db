import GoNav.Proofs.Occurrence

namespace GoNav

namespace Declaration

theorem beq_self (d : Declaration) : (d == d) = true := by
  cases d with
  | node place => exact Bool.and_eq_true_iff.mpr ⟨beq_self_eq_true place.file, beq_self_eq_true place.node.path⟩
  | directory path => exact beq_self_eq_true path.components

end Declaration

namespace Workspace

variable {ws : Workspace} {d : Declaration} {r : Reference}

/-- All references of a workspace: file after file, and in a file each before those inside it. -/
def uses (ws : Workspace) : List Reference :=
  ws.files.flatMap fun (id, f) => f.root.descendants.filterMap (Reference.ofNode? id)

theorem uses_spec (member : r ∈ ws.uses) :
    ws.Holds ⟨r.file, r.node⟩ ∧ Reference.ofNode? r.file r.node = some r := by
  obtain ⟨⟨id, f⟩, among, inside⟩ := List.mem_flatMap.mp member
  obtain ⟨n, below, isReference⟩ := List.mem_filterMap.mp inside
  obtain ⟨rfl, rfl, _⟩ := Reference.ofNode?_spec isReference
  exact ⟨⟨f, file?_of_mem_files among, below⟩, isReference⟩

/-- No node is among the references twice. -/
theorem nodup_uses (ws : Workspace) : (ws.uses.map fun r => (r.file, r.node.path)).Nodup := by
  rw [List.Nodup, List.pairwise_map, uses, List.pairwise_flatMap]
  constructor
  · rintro ⟨id, f⟩ _
    rw [List.pairwise_filterMap]
    refine (List.pairwise_map.mp (Node.nodup_paths f.root)).imp ?_
    intro a b different r left s right same
    obtain ⟨_, rfl, _⟩ := Reference.ofNode?_spec left
    obtain ⟨_, rfl, _⟩ := Reference.ofNode?_spec right
    exact different (Prod.mk.inj same).2
  · refine (List.pairwise_map.mp ws.distinct).imp ?_
    rintro ⟨id, f⟩ ⟨other, g⟩ different r left s right same
    obtain ⟨a, _, isLeft⟩ := List.mem_filterMap.mp left
    obtain ⟨b, _, isRight⟩ := List.mem_filterMap.mp right
    obtain ⟨rfl, _, _⟩ := Reference.ofNode?_spec isLeft
    obtain ⟨rfl, _, _⟩ := Reference.ofNode?_spec isRight
    exact different (Prod.mk.inj same).1

/-! What the search for references visits -/

theorem category_of_referenceKind {kind : Kind} {use : ReferenceKind}
    (refers : kind.referenceKind = some use) : ∃ category, kind.category = some category := by
  unfold Kind.referenceKind at refers
  split at refers
  · exact ⟨_, rfl⟩
  · exact ⟨_, rfl⟩
  · exact ⟨_, rfl⟩
  · cases refers

/-- The places of those references among nodes that pass a test. -/
def placesIn (file : FileId) (test : Reference → Bool) (nodes : List Node) : List (FileId × (Nat × Nat)) :=
  ((nodes.filterMap (Reference.ofNode? file)).filter test).map fun r => (r.file, r.range)

theorem dispatch_referenceVisitor (file : FileId) (e : Element) (found : List (FileId × (Nat × Nat))) :
    (ws.referenceVisitor file d).dispatch e found =
      found ++ placesIn file (fun r => mayMean d.name? r && r.resolve ws == some d) e.node?.toList := by
  cases e with
  | leaf l => simp [Visitor.dispatch, referenceVisitor, placesIn, Element.node?]
  | node n =>
    cases refers : n.kind.referenceKind with
    | none =>
      have nothing : Reference.ofNode? file n = none := by rw [Reference.ofNode?, refers]; rfl
      simp only [placesIn, Element.node?, Option.toList_some, List.filterMap_cons, nothing,
        List.filterMap_nil, List.filter_nil, List.map_nil, List.append_nil]
      simp only [Visitor.dispatch, referenceVisitor, refers, Option.map_none, Option.getD_none]
      cases n.kind.category with
      | none => rfl
      | some category => cases category <;> rfl
    | some use =>
      obtain ⟨category, known⟩ := category_of_referenceKind refers
      have isReference : Reference.ofNode? file n = some ⟨use, file, n⟩ := by
        rw [Reference.ofNode?, refers]
        rfl
      simp only [Visitor.dispatch, referenceVisitor, known, refers, Option.map_some, Option.getD_some,
        isReference, placesIn, Element.node?, Option.toList_some, List.filterMap_cons, List.filterMap_nil,
        List.filter_cons, List.filter_nil]
      split <;> simp

theorem placesIn_append (file : FileId) (test : Reference → Bool) (left right : List Node) :
    placesIn file test (left ++ right) = placesIn file test left ++ placesIn file test right := by
  simp [placesIn]

theorem walk_referenceVisitor (file : FileId) (n : Node) (found : List (FileId × (Nat × Nat))) :
    (ws.referenceVisitor file d).walk n found =
      found ++ placesIn file (fun r => mayMean d.name? r && r.resolve ws == some d) n.descendants := by
  rw [Visitor.walk, Node.descendants]
  induction n.preorder generalizing found with
  | nil => simp [placesIn]
  | cons e rest ih =>
    have parts : (e :: rest).filterMap Element.node? = e.node?.toList ++ rest.filterMap Element.node? := by
      cases e <;> rfl
    rw [List.foldl_cons, ih, dispatch_referenceVisitor, parts, placesIn_append, List.append_assoc]

theorem walk_files (files : List (FileId × SourceFile)) (found : List (FileId × (Nat × Nat))) :
    files.foldl (fun found (id, f) => (ws.referenceVisitor id d).walk f.root found) found =
      found ++ files.flatMap fun (id, f) =>
        placesIn id (fun r => mayMean d.name? r && r.resolve ws == some d) f.root.descendants := by
  induction files generalizing found with
  | nil => simp
  | cons entry rest ih =>
    refine (ih ((ws.referenceVisitor entry.1 d).walk entry.2.root found)).trans ?_
    rw [walk_referenceVisitor, List.flatMap_cons, List.append_assoc]

/-! The answer -/

theorem resolve_beq_iff (known : d.IsIn ws) (member : r ∈ ws.uses) :
    (r.resolve ws == some d) = true ↔ r.resolve ws = some d := by
  cases resolved : r.resolve ws with
  | none => simp
  | some e =>
    have target := (Reference.faithful_resolve ws r e (uses_spec member).1 resolved).1
    rw [Option.some_beq_some, Option.some.injEq]
    constructor
    · exact target.eq_of_beq known
    · rintro rfl
      exact e.beq_self

/-- A reference that stands for something has the chance to. -/
theorem mayMean_of_resolve (member : r ∈ ws.uses) (resolved : r.resolve ws = some d) :
    mayMean d.name? r = true := by
  by_cases path : r.kind = .importPath
  · simp [mayMean, path]
  · have named := (Reference.faithful_resolve ws r d (uses_spec member).1 resolved).2 path
    simp [mayMean, named]

theorem places_eq {file : FileId} {offset : Nat} (declared : ws.declarationAt? file offset = some d) :
    (ws.referencesAt file offset).places =
      (ws.uses.filter fun r => r.resolve ws == some d).map fun r => (r.file, r.range) := by
  have known := declarationAt?_isIn declared
  have sameTest : ws.uses.filter (fun r => mayMean d.name? r && r.resolve ws == some d) =
      ws.uses.filter fun r => r.resolve ws == some d := by
    refine List.filter_congr fun r member => ?_
    cases means : r.resolve ws == some d with
    | false => rw [Bool.and_false]
    | true => rw [mayMean_of_resolve member ((resolve_beq_iff known member).mp means), Bool.true_and]
  rw [← sameTest]
  simp only [referencesAt, declared, walk_files, List.nil_append, uses, List.filter_flatMap, List.map_flatMap]
  rfl

/-- The references to what stands at an offset are exactly those of the workspace that resolve to it,
file after file and in the order of each tree. Each is there once, for no node is met twice. That the
search leaves out a reference with another name loses none: apart from the path of an import, whatever
a reference stands for has the name that is written in the reference. -/
theorem referencesAt_exact {ws : Workspace} {file : FileId} {offset : Nat} {d : Declaration}
    (declared : ws.declarationAt? file offset = some d) :
    (ws.referencesAt file offset).declaration = some d ∧
      (ws.referencesAt file offset).places =
        ((ws.uses.filter fun r => r.resolve ws == some d).map fun r => (r.file, r.range)) ∧
      (∀ r ∈ ws.uses, (r.resolve ws == some d) = true ↔ r.resolve ws = some d) ∧
      (ws.uses.map fun r => (r.file, r.node.path)).Nodup ∧
      (∀ r ∈ ws.uses, r.kind ≠ .importPath → ∀ e, r.resolve ws = some e → e.name? = r.name?) := by
  refine ⟨by simp only [referencesAt, declared], places_eq declared, ?_, nodup_uses ws, ?_⟩
  · exact fun r member => resolve_beq_iff (declarationAt?_isIn declared) member
  · intro r member use e resolved
    exact (Reference.faithful_resolve ws r e (uses_spec member).1 resolved).2 use

/-- A package of two files that use the same variable. -/
def sharing : Workspace :=
  let first := (({} : Workspace).setText ⟨"/p/a.go"⟩ "package p\nvar a = b\nvar b = a\n").2
  (first.setText ⟨"/p/b.go"⟩ "package p\nvar c = a\n").2

theorem referencesAt_exact_sharing :
    ∃ d, sharing.declarationAt? ⟨0⟩ 15 = some d ∧
      (sharing.referencesAt ⟨0⟩ 15).places = [(⟨0⟩, 28, 29), (⟨1⟩, 18, 19)] ∧
      (sharing.referencesAt ⟨0⟩ 15).places =
        ((sharing.uses.filter fun r => r.resolve sharing == some d).map fun r => (r.file, r.range)) := by
  have present : (sharing.declarationAt? ⟨0⟩ 15).isSome = true := by decide +kernel
  obtain ⟨d, declared⟩ := Option.isSome_iff_exists.mp present
  exact ⟨d, declared, by decide +kernel, (referencesAt_exact declared).2.1⟩

theorem referencesAt_of_declarationAt? {file other : FileId} {offset place : Nat}
    (declared : ws.declarationAt? file offset = some d) (again : ws.declarationAt? other place = some d) :
    ws.referencesAt other place = ws.referencesAt file offset := by
  simp only [referencesAt, declared, again]

theorem declarationAt?_of_referencesAt {file : FileId} {offset : Nat}
    (answered : (ws.referencesAt file offset).declaration = some d) :
    ws.declarationAt? file offset = some d := by
  unfold referencesAt at answered
  split at answered
  · cases answered
  · rename_i target declared
    cases answered
    exact declared

/-- It does not matter at which occurrence one asks for references. The answer is the same in each
place that it names, and in the name of what is declared, unless that is a package or an embedded
field. An occurrence counts from behind its first byte up to its end. -/
theorem referencesAt_occurrence {ws : Workspace} {file : FileId} {offset : Nat} {d : Declaration}
    (answered : (ws.referencesAt file offset).declaration = some d) :
    (∀ place ∈ (ws.referencesAt file offset).places, ∀ other, place.2.1 < other → other ≤ place.2.2 →
      ws.referencesAt place.1 other = ws.referencesAt file offset) ∧
    (∀ place range, d = .node place → place.node.kind ≠ .anonFieldDef → d.focusRange? = some range →
      ∀ other, range.1 < other → other ≤ range.2 →
        ws.referencesAt place.file other = ws.referencesAt file offset) := by
  have declared := declarationAt?_of_referencesAt answered
  have known := declarationAt?_isIn declared
  constructor
  · intro place member other after upTo
    rw [places_eq declared] at member
    obtain ⟨r, among, rfl⟩ := List.mem_map.mp member
    obtain ⟨use, means⟩ := List.mem_filter.mp among
    obtain ⟨held, isReference⟩ := uses_spec use
    have resolved := (resolve_beq_iff known use).mp means
    exact referencesAt_of_declarationAt? declared
      (declarationAt?_of_use held isReference resolved after upTo)
  · rintro place range rfl ownToken focus other after upTo
    exact referencesAt_of_declarationAt? declared
      (declarationAt?_of_name known ownToken focus after upTo)

theorem referencesAt_occurrence_sharing :
    (sharing.referencesAt ⟨0⟩ 29).places = [(⟨0⟩, 28, 29), (⟨1⟩, 18, 19)] ∧
      sharing.referencesAt ⟨1⟩ 19 = sharing.referencesAt ⟨0⟩ 29 ∧
      sharing.referencesAt ⟨0⟩ 15 = sharing.referencesAt ⟨0⟩ 29 := by
  have places : (sharing.referencesAt ⟨0⟩ 29).places = [(⟨0⟩, 28, 29), (⟨1⟩, 18, 19)] := by decide +kernel
  have facts : ((sharing.referencesAt ⟨0⟩ 29).declaration.any fun d =>
      d.file? == some ⟨0⟩ && d.kind == .variable && d.focusRange? == some (14, 15)) = true := by
    decide +kernel
  obtain ⟨d, answered, tests⟩ := (Option.any_eq_true _ _).mp facts
  simp only [Bool.and_eq_true, beq_iff_eq] at tests
  obtain ⟨⟨inFirst, sort⟩, focus⟩ := tests
  cases d with
  | directory path => cases inFirst
  | node place =>
    have ownToken : place.node.kind ≠ .anonFieldDef := by
      intro anonymous
      simp [Declaration.kind, anonymous, Kind.declares] at sort
    obtain ⟨byUse, byName⟩ := referencesAt_occurrence answered
    have inSecond : (⟨1⟩, 18, 19) ∈ (sharing.referencesAt ⟨0⟩ 29).places := by
      rw [places]
      exact List.mem_cons_of_mem _ (List.mem_singleton.mpr rfl)
    have atName := byName place (14, 15) rfl ownToken focus 15 (by decide) (by decide)
    rw [Option.some.inj inFirst] at atName
    exact ⟨places, byUse _ inSecond 19 (by decide) (by decide), atName⟩

end Workspace

end GoNav
