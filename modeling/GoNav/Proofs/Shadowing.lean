import GoNav.Proofs.Edits

namespace GoNav

/-- What is found in two lists is found in the first of them, if all that the second says about it is said
there too. -/
theorem Item.find_of_among {name : String} {first rest : List Item} {d : Declaration}
    (found : find name (first ++ rest) = some d)
    (among : ∀ item ∈ rest, item.declaration = some d → item ∈ first) : find name first = some d := by
  rw [find_append] at found
  rcases Option.or_eq_some_iff.mp found with own | ⟨none, later⟩
  · exact own
  · obtain ⟨item, member, chosen⟩ := List.exists_of_findSome?_eq_some later
    split at chosen
    · rename_i called
      have nothing := (find_eq_none_iff name first).mp none item (among item member chosen) called
      cases nothing.symm.trans chosen
    · cases chosen

theorem Declaration.exists_node_of_file? {d : Declaration} {g : FileId} (stands : d.file? = some g) :
    ∃ n, d = .node ⟨g, n⟩ := by
  cases d with
  | node place =>
    cases stands
    exact ⟨place.node, rfl⟩
  | directory path => cases stands

/-! Where a declaration that a file shows can stand -/

namespace Scope

variable {ws : Workspace} {home file g : FileId} {element n : Node} {filter : ScopeFilter} {item : Item}

theorem file_of_mem_topLevelOf (member : item ∈ topLevelOf ws file filter)
    (declared : item.declaration = some (.node ⟨g, n⟩)) : g = file := by
  unfold topLevelOf at member
  split at member
  · cases member
  · obtain ⟨m, _, same, _⟩ := mem_itemsOf member
    cases declared.symm.trans same
    rfl

theorem importSpec_of_mem_importNames {root : Node} (member : item ∈ importNames ws file (.ofFile root))
    (declared : item.declaration = some (.node ⟨g, n⟩)) : g = file ∧ n.kind = .importSpec := by
  obtain ⟨name, _, rfl⟩ := List.mem_map.mp member
  obtain ⟨entry, among, stands⟩ := List.exists_of_findSome?_eq_some declared
  obtain ⟨spec, imported, made⟩ := ImportTable.exists_import among
  rcases ImportTable.entryOf?_cases made with ⟨l, _, _, rfl⟩ | ⟨path, rfl, _⟩
  · cases stands
    obtain ⟨outer, _, inside⟩ := List.mem_flatMap.mp imported
    exact ⟨rfl, Node.kind_of_mem_childrenOf inside⟩
  · obtain ⟨dir, _, isNode⟩ := Option.map_eq_some_iff.mp stands
    cases isNode

/-- A declaration that a file shows encloses the element, or is an import of the file itself, or is a name
that the file where it stands adds to its package. -/
theorem ofFile_cases {isLocal : Bool} (member : item ∈ ofFile ws home element file isLocal filter)
    (declared : item.declaration = some (.node ⟨g, n⟩)) :
    item ∈ walkUp home element filter ∨ g = file ∧ n.kind = .importSpec ∨ item ∈ topLevelOf ws g filter := by
  unfold ofFile at member
  split at member
  · cases member
  · rename_i f found
    simp only [List.mem_append] at member
    rcases member with (around | top) | outside
    · split at around
      · rename_i here
        rw [eq_of_beq (Bool.and_eq_true_iff.mp here).2] at around
        exact Or.inl around
      · cases around
    · have own : item ∈ topLevelOf ws file filter := by rw [topLevelOf, found]; exact top
      rw [file_of_mem_topLevelOf own declared]
      exact Or.inr (Or.inr own)
    · split at outside
      · rcases List.mem_append.mp outside with imported | dotted
        · exact Or.inr (Or.inl (importSpec_of_mem_importNames imported declared))
        · obtain ⟨dir, _, inside⟩ := List.mem_flatMap.mp dotted
          obtain ⟨other, _, top⟩ := List.mem_flatMap.mp inside
          rw [file_of_mem_topLevelOf top declared]
          exact Or.inr (Or.inr top)
      · cases outside

/-- In another than local mode a file shows only what it adds to its package. -/
theorem ofFile_elsewhere : ofFile ws home element file false filter = topLevelOf ws file filter := by
  rw [ofFile, topLevelOf]
  split
  · rfl
  · simp

theorem file_of_mem_walkUp (member : item ∈ walkUp home element filter)
    (declared : item.declaration = some (.node ⟨g, n⟩)) : g = home := by
  obtain ⟨m, _, same, _⟩ := mem_itemsOf member
  cases declared.symm.trans same
  rfl

end Scope

namespace Reference

variable {ws : Workspace} {r : Reference} {f : SourceFile} {n : Node} {name : String}

/-- The names that a file alone shows to a reference in it: those that enclose the reference, and those at
the top level. -/
def ownScope (r : Reference) (f : SourceFile) : List Item :=
  Scope.walkUp r.file r.node r.filter ++ Scope.topLevel r.file f.root r.filter

/-- The names of the file itself come before all others. -/
theorem exists_scope_eq (use : r.kind ≠ .importPath) (atFile : ws.file? r.file = some f) :
    ∃ rest, ((Scope.unqualifiedFiles ws r.file).flatMap fun entry => r.scopeIn ws entry.1 entry.2) =
      r.ownScope f ++ rest := by
  have own : r.scopeIn ws r.file true =
      r.ownScope f ++ (Scope.importNames ws r.file (ImportTable.ofFile f.root) ++
        Scope.dotImported ws r.file (ImportTable.ofFile f.root) r.filter) := by
    simp [scopeIn_use _ use, Scope.ofFile, atFile, ownScope]
  rw [Scope.unqualifiedFiles, List.cons_append, List.flatMap_cons, own, List.append_assoc]
  exact ⟨_, rfl⟩

theorem resolve_of_find_ownScope (use : r.kind ≠ .importPath) (plain : r.qualifier? = none)
    (named : r.name? = some name) (atFile : ws.file? r.file = some f) {d : Declaration}
    (found : Item.find name (r.ownScope f) = some d) : r.resolve ws = some d := by
  obtain ⟨rest, scope⟩ := exists_scope_eq use atFile
  rw [resolve_unqualified ws use plain, named, Option.bind_some, scope, Item.find_append, found, Option.some_or]

/-- What stands in the file of a reference, and is no import, is found among the names of that file alone. -/
theorem find_ownScope_of_resolve (use : r.kind ≠ .importPath) (plain : r.qualifier? = none)
    (named : r.name? = some name) (atFile : ws.file? r.file = some f) (notImport : n.kind ≠ .importSpec)
    (found : r.resolve ws = some (.node ⟨r.file, n⟩)) :
    Item.find name (r.ownScope f) = some (.node ⟨r.file, n⟩) := by
  obtain ⟨rest, scope⟩ := exists_scope_eq use atFile
  rw [resolve_unqualified ws use plain, named, Option.bind_some, scope] at found
  refine Item.find_of_among found fun item member declared => ?_
  have visible : item ∈ (Scope.unqualifiedFiles ws r.file).flatMap fun entry => r.scopeIn ws entry.1 entry.2 := by
    rw [scope]
    exact List.mem_append_right _ member
  obtain ⟨entry, _, inside⟩ := List.mem_flatMap.mp visible
  rw [scopeIn_use _ use] at inside
  rcases Scope.ofFile_cases inside declared with around | ⟨_, isImport⟩ | top
  · exact List.mem_append_left _ around
  · exact absurd isImport notImport
  · rw [Scope.topLevelOf, atFile] at top
    exact List.mem_append_right _ top

end Reference

/-! The file of predeclared names comes last -/

namespace Scope

variable {ws : Workspace} {file g : FileId}

/-- The files in which a name is looked for before the file of predeclared names: the file itself, and the
others of its package. -/
def ownFiles (ws : Workspace) (file : FileId) : List (FileId × Bool) :=
  (file, true) :: (((ws.directoryOf? file).toList.flatMap ws.filesIn).filter fun sibling =>
    sibling != file && ((ws.package? file).isNone || ws.package? sibling == ws.package? file)).map (·, false)

/-- The file of predeclared names, where it is looked into behind all others. -/
def lastFiles (ws : Workspace) (file : FileId) : List (FileId × Bool) :=
  (if ws.isBuiltinFile file then [] else ws.builtinFile?.toList).map (·, true)

theorem unqualifiedFiles_eq (ws : Workspace) (file : FileId) :
    unqualifiedFiles ws file = ownFiles ws file ++ lastFiles ws file :=
  rfl

theorem mem_lastFiles {entry : FileId × Bool} (member : entry ∈ lastFiles ws file) :
    ws.builtinFile? = some entry.1 := by
  obtain ⟨builtin, there, rfl⟩ := List.mem_map.mp member
  split at there
  · cases there
  · exact Option.mem_toList.mp there

theorem mem_ownFiles {dir : Path} (there : ws.directoryOf? file = some dir) :
    (g, false) ∈ ownFiles ws file ↔
      g ≠ file ∧ g ∈ ws.filesIn dir ∧ (ws.package? file = none ∨ ws.package? g = ws.package? file) := by
  simp [ownFiles, there, and_left_comm]

end Scope

namespace Reference

variable {ws ws' : Workspace} {r : Reference} {f : SourceFile} {g builtin : FileId} {dir : Path} {n : Node}
  {name : String}

/-- What stands in another file of the package is found before the predeclared names are looked at. -/
theorem find_ownFiles_of_resolve (use : r.kind ≠ .importPath) (plain : r.qualifier? = none)
    (named : r.name? = some name) (there : ws.directoryOf? r.file = some dir) (other : g ≠ r.file)
    (inside : g ∈ ws.filesIn dir) (package : ws.package? g = ws.package? r.file)
    (outside : ∀ builtin, ws.builtinFile? = some builtin → builtin ∉ ws.filesIn dir)
    (found : r.resolve ws = some (.node ⟨g, n⟩)) :
    Item.find name ((Scope.ownFiles ws r.file).flatMap fun entry => r.scopeIn ws entry.1 entry.2) =
      some (.node ⟨g, n⟩) := by
  rw [resolve_unqualified ws use plain, named, Option.bind_some, Scope.unqualifiedFiles_eq,
    List.flatMap_append] at found
  refine Item.find_of_among found fun item member declared => ?_
  obtain ⟨entry, last, visible⟩ := List.mem_flatMap.mp member
  rw [scopeIn_use _ use] at visible
  rcases Scope.ofFile_cases visible declared with around | ⟨same, _⟩ | top
  · exact absurd (Scope.file_of_mem_walkUp around declared) other
  · exact absurd inside (same ▸ outside entry.1 (Scope.mem_lastFiles last))
  · refine List.mem_flatMap.mpr ⟨(g, false), (Scope.mem_ownFiles there).mpr ⟨other, inside, Or.inr package⟩, ?_⟩
    rw [scopeIn_use _ use, Scope.ofFile_elsewhere]
    exact top

/-- Another text for the file of predeclared names leaves alone what is looked at before it. -/
theorem scope_ownFiles_eq (use : r.kind ≠ .importPath) (edited : Workspace.EditedAt builtin ws ws')
    (atFile : ws.file? r.file = some f) (there : ws.directoryOf? r.file = some dir)
    (outside : builtin ∉ ws.filesIn dir)
    (notImported : ∀ path ∈ (ImportTable.ofFile f.root).dotPaths, ∀ imported,
      ws.importDirectory? r.file path = some imported → builtin ∉ ws.filesIn imported) :
    ((Scope.ownFiles ws' r.file).flatMap fun entry => r.scopeIn ws' entry.1 entry.2) =
      (Scope.ownFiles ws r.file).flatMap fun entry => r.scopeIn ws entry.1 entry.2 := by
  have inside : r.file ∈ ws.filesIn dir := by
    rw [Workspace.directoryOf?, atFile, Option.bind_some] at there
    exact Workspace.mem_filesIn.mpr ⟨f, atFile, by simp [SourceFile.isIn, there]⟩
  have different : r.file ≠ builtin := fun same => outside (same ▸ inside)
  have files : Scope.ownFiles ws' r.file = Scope.ownFiles ws r.file := by
    have all := edited.unqualifiedFiles_eq different fun other same member => by
      cases there.symm.trans same
      exact absurd member outside
    have last : Scope.lastFiles ws' r.file = Scope.lastFiles ws r.file := by
      rw [Scope.lastFiles, edited.isBuiltinFile, edited.builtinFile?, Scope.lastFiles]
    rw [Scope.unqualifiedFiles_eq, Scope.unqualifiedFiles_eq, last] at all
    exact List.append_cancel_right all
  rw [files]
  refine List.flatMap_congr fun entry member => ?_
  obtain ⟨id, isLocal⟩ := entry
  rw [scopeIn_use _ use, scopeIn_use _ use]
  cases isLocal with
  | false =>
    have sibling := (Scope.mem_ownFiles there).mp member
    exact edited.ofFile_eq (fun same => outside (same ▸ sibling.2.1))
      fun isLocal => absurd isLocal Bool.false_ne_true
  | true =>
    have own : id = r.file := by simpa [Scope.ownFiles] using member
    subst own
    refine edited.ofFile_eq different fun _ h found => ?_
    cases atFile.symm.trans found
    exact notImported

theorem use_of_resolve (found : r.resolve ws = some (.node ⟨g, n⟩)) : r.kind ≠ .importPath := by
  intro path
  rw [resolve, Workspace.referenceDepth, resolveWithin_add_one, path] at found
  obtain ⟨dir, _, isNode⟩ := Option.map_eq_some_iff.mp found
  cases isNode

/-- What hides other declarations of its name goes on to do so. A reference without a qualifier that stands
for something in its own file, other than an import, stands for it in every workspace that has the file with
that text under its number. One that stands for something in another file of its package does so whatever the
text of the file of predeclared names, if that is neither in the directory of the reference nor in one that
the file of the reference imports without a qualifier. -/
theorem resolve_stable {ws : Workspace} {r : Reference} {f : SourceFile} {g : FileId} {n : Node}
    (atFile : ws.file? r.file = some f) (plain : r.qualifier? = none)
    (found : r.resolve ws = some (.node ⟨g, n⟩)) :
    (g = r.file → n.kind ≠ .importSpec → ∀ (ws' : Workspace) (f' : SourceFile),
      ws'.file? r.file = some f' → f'.text = f.text → r.resolve ws' = r.resolve ws) ∧
    (g ≠ r.file → ∀ dir builtin, f.directory? = some dir → g ∈ ws.filesIn dir → ws.package? g = f.package →
      ws.builtinFile? = some builtin → builtin ∉ ws.filesIn dir →
      (∀ path ∈ (ImportTable.ofFile f.root).dotPaths, ∀ imported,
        ws.importDirectory? r.file path = some imported → builtin ∉ ws.filesIn imported) →
      ∀ ws', Workspace.EditedAt builtin ws ws' → r.resolve ws' = r.resolve ws) := by
  have use := use_of_resolve found
  obtain ⟨name, named⟩ := exists_name use found
  rw [found]
  constructor
  · rintro rfl notImport ws' f' again text
    have root : f'.root = f.root := by rw [SourceFile.root, f'.parse_eq, text, ← f.parse_eq, SourceFile.root]
    have own := find_ownScope_of_resolve use plain named atFile notImport found
    exact resolve_of_find_ownScope use plain named again (by rwa [ownScope, root])
  · intro other dir builtin directory inside package isBuiltin outside notImported ws' edited
    have there : ws.directoryOf? r.file = some dir := by rwa [Workspace.directoryOf?, atFile]
    have samePackage : ws.package? g = ws.package? r.file := by
      rw [package, Workspace.package?, atFile]
      rfl
    have first := find_ownFiles_of_resolve use plain named there other inside samePackage
      (fun b same => by cases isBuiltin.symm.trans same; exact outside) found
    rw [resolve_unqualified ws' use plain, named, Option.bind_some, Scope.unqualifiedFiles_eq,
      List.flatMap_append, Item.find_append, scope_ownFiles_eq use edited atFile there outside notImported, first,
      Option.some_or]

/-- The predeclared names, and a package of two files that declares some of them too. -/
def redeclaring : Workspace :=
  let builtin := (({ config := { sdkSrc := some ⟨"/go"⟩ } } : Workspace).setText ⟨"/go/builtin/builtin.go"⟩
    "package builtin\nvar X, Y = 1, 2\n").2
  let first := (builtin.setText ⟨"/p/a.go"⟩ "package p\nvar X = 1\nvar z = X + Y\n").2
  (first.setText ⟨"/p/b.go"⟩ "package p\nvar Y = 2\n").2

/-- The first of the files of that package alone, under the same number. -/
def alone : Workspace :=
  ({} : Workspace).insert ⟨1⟩ (.ofText ⟨"/q/a.go"⟩ "package p\nvar X = 1\nvar z = X + Y\n")

theorem resolve_stable_redeclaring :
    ∃ x y, at? redeclaring ⟨1⟩ 29 = some x ∧ at? redeclaring ⟨1⟩ 33 = some y ∧
      (x.resolve redeclaring).isSome = true ∧ (y.resolve redeclaring).isSome = true ∧
      x.resolve alone = x.resolve redeclaring ∧
      y.resolve (redeclaring.setText ⟨"/go/builtin/builtin.go"⟩ "package builtin\n").2 = y.resolve redeclaring := by
  have orderly : redeclaring.Orderly := (((Workspace.orderly_empty _).setText ..).setText ..).setText ..
  have facts : ((at? redeclaring ⟨1⟩ 29).any fun x => (at? redeclaring ⟨1⟩ 33).any fun y =>
      (redeclaring.file? ⟨1⟩).any fun f => (alone.file? ⟨1⟩).any fun f' => f'.text == f.text &&
        x.file == ⟨1⟩ && x.qualifier?.isNone && y.file == ⟨1⟩ && y.qualifier?.isNone &&
        ((x.resolve redeclaring).any fun d => d.file? == some ⟨1⟩ && d.kind == .variable) &&
        ((y.resolve redeclaring).any fun d => d.file? == some ⟨2⟩) &&
        (ImportTable.ofFile f.root).dotPaths.isEmpty && redeclaring.package? ⟨2⟩ == f.package &&
        f.directory?.any fun dir =>
          (redeclaring.filesIn dir).contains ⟨2⟩ && !(redeclaring.filesIn dir).contains ⟨0⟩) = true := by decide +kernel
  have builtin : redeclaring.builtinFile? = some ⟨0⟩ := by decide +kernel
  have atPath : redeclaring.fileId? ⟨"/go/builtin/builtin.go"⟩ = some ⟨0⟩ := by decide +kernel
  simp only [Option.any_eq_true, Bool.and_eq_true, beq_iff_eq, Option.isNone_iff_eq_none, List.isEmpty_iff,
    Bool.not_eq_true', List.contains_iff_mem, ← Bool.not_eq_true] at facts
  obtain ⟨x, atX, y, atY, f, atFile, f', again, ⟨tests, package⟩, dir, directory, inside, outside⟩ := facts
  obtain ⟨⟨⟨⟨⟨⟨⟨text, fileX⟩, plainX⟩, fileY⟩, plainY⟩, d, foundX, ownFile, kind⟩, e, foundY, otherFile⟩, noDots⟩ :=
    tests
  obtain ⟨n, rfl⟩ := Declaration.exists_node_of_file? ownFile
  obtain ⟨m, rfl⟩ := Declaration.exists_node_of_file? otherFile
  have notImport : n.kind ≠ .importSpec := by
    intro isImport
    simp [Declaration.kind, isImport, Kind.declares] at kind
  refine ⟨x, y, atX, atY, foundX ▸ rfl, foundY ▸ rfl, ?_, ?_⟩
  · rw [← fileX] at atFile again
    exact (resolve_stable atFile plainX foundX).1 fileX.symm notImport alone f' again text
  · have edited := orderly.editedAt_setText atPath "package builtin\n"
    rw [← fileY] at atFile
    refine (resolve_stable atFile plainY foundY).2 (by simp [fileY]) dir ⟨0⟩ directory inside package builtin
      outside ?_ _ edited
    simp [noDots]

end Reference

end GoNav
