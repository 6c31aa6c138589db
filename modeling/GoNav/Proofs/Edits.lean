import GoNav.Proofs.Candidates
import GoNav.Proofs.PathOrder
import GoNav.Proofs.Upkeep

namespace GoNav

/-! Other texts for the same files -/

section Sorted

variable {α β : Type} {before : α → α → Bool} {earlier : β → β → Bool} {key : α → β}

theorem map_insertSorted (same : ∀ a b, earlier (key a) (key b) = before a b) (a : α) (as : List α) :
    (insertSorted before a as).map key = insertSorted earlier (key a) (as.map key) := by
  induction as with
  | nil => rfl
  | cons b rest ih =>
    rw [insertSorted, List.map_cons, insertSorted, same]
    split
    · rfl
    · rw [List.map_cons, ih]

/-- What is put in order by a key is in the order of the keys. -/
theorem map_sorted (same : ∀ a b, earlier (key a) (key b) = before a b) (as : List α) :
    (sorted before as).map key = sorted earlier (as.map key) := by
  have fold (done : List α) : (as.foldl (fun done a => insertSorted before a done) done).map key =
      (as.map key).foldl (fun done b => insertSorted earlier b done) (done.map key) := by
    induction as generalizing done with
    | nil => rfl
    | cons a rest ih => rw [List.foldl_cons, ih, map_insertSorted same, List.map_cons, List.foldl_cons]
  exact fold []

end Sorted

namespace Workspace

/-- Where a file stands, whatever its text. -/
def place (entry : FileId × SourceFile) : FileId × Path :=
  (entry.1, entry.2.path)

/-- The second workspace has the same files as the first, in the same places, with any texts. -/
structure SamePlaces (ws ws' : Workspace) : Prop where
  fileSet : ws'.fileSet = ws.fileSet
  config : ws'.config = ws.config
  files : ws'.files.map place = ws.files.map place

theorem lookup_place (id : FileId) (files : List (FileId × SourceFile)) :
    (files.map place).lookup id = (files.lookup id).map SourceFile.path := by
  induction files with
  | nil => rfl
  | cons entry rest ih =>
    rw [List.map_cons, List.lookup_cons, List.lookup_cons, ih, place]
    cases id == entry.1 <;> rfl

theorem mem_filesIn {ws : Workspace} {id : FileId} {dir : Path} :
    id ∈ ws.filesIn dir ↔ ∃ f, ws.file? id = some f ∧ f.isIn dir = true := by
  rw [filesIn, ((sorted_perm fileBefore _).map Prod.fst).mem_iff, List.mem_map]
  constructor
  · rintro ⟨⟨id, f⟩, member, rfl⟩
    obtain ⟨among, inside⟩ := List.mem_filter.mp member
    exact ⟨f, file?_of_mem_files among, inside⟩
  · rintro ⟨f, found, inside⟩
    exact ⟨(id, f), List.mem_filter.mpr ⟨mem_files_of_file? found, inside⟩, rfl⟩

namespace SamePlaces

variable {ws ws' : Workspace} (same : SamePlaces ws ws')
include same

theorem path_eq (id : FileId) :
    (ws'.file? id).map SourceFile.path = (ws.file? id).map SourceFile.path := by
  rw [file?, file?, ← lookup_place, ← lookup_place, same.files]

theorem directoryOf? (id : FileId) : ws'.directoryOf? id = ws.directoryOf? id := by
  have through (ws : Workspace) :
      ws.directoryOf? id = ((ws.file? id).map SourceFile.path).bind Path.parent? := by
    rw [Workspace.directoryOf?, Option.bind_map]
    rfl
  rw [through, through, same.path_eq]

theorem isBuiltinFile (id : FileId) : ws'.isBuiltinFile id = ws.isBuiltinFile id := by
  have through (ws : Workspace) :
      (ws.file? id).bind SourceFile.name? = ((ws.file? id).map SourceFile.path).bind Path.fileName? := by
    rw [Option.bind_map]
    rfl
  rw [Workspace.isBuiltinFile, Workspace.isBuiltinFile, through, through, same.path_eq, same.config]

theorem fileId? (path : Path) : ws'.fileId? path = ws.fileId? path := by
  have there (id : FileId) : (ws'.file? id).isSome = (ws.file? id).isSome := by
    rw [← Option.isSome_map, same.path_eq, Option.isSome_map]
  simp only [Workspace.fileId?, same.fileSet, there]

theorem builtinFile? : ws'.builtinFile? = ws.builtinFile? := by
  rw [Workspace.builtinFile?, Workspace.builtinFile?, same.config, funext same.fileId?]

theorem hasDirectory (dir : Path) : ws'.hasDirectory dir = ws.hasDirectory dir := by
  have through (ws : Workspace) :
      ws.hasDirectory dir = (ws.files.map place).any fun place => place.2.parent? == some dir := by
    rw [List.any_map]
    rfl
  rw [through, through, same.files]

theorem importDirectory? (id : FileId) (importPath : String) :
    ws'.importDirectory? id importPath = ws.importDirectory? id importPath := by
  simp only [Workspace.importDirectory?, same.directoryOf?, same.config, funext same.hasDirectory]

theorem filesIn (dir : Path) : ws'.filesIn dir = ws.filesIn dir := by
  have through (ws : Workspace) : ws.filesIn dir =
      (sorted (fun a b => a.2.before b.2 || (a.2 == b.2 && a.1.number < b.1.number))
        ((ws.files.map place).filter fun place => place.2.parent? == some dir)).map Prod.fst := by
    rw [List.filter_map, ← @map_sorted _ _ fileBefore _ place fun _ _ => rfl, List.map_map]
    rfl
  rw [through, through, same.files]

theorem resolveImport (table : ImportTable) (file : FileId) (name : String) :
    table.resolve ws' file name = table.resolve ws file name := by
  simp only [ImportTable.resolve, same.importDirectory?]

end SamePlaces

/-! Another text for one file -/

/-- The second workspace is the first with any text for the file `x`. -/
structure EditedAt (x : FileId) (ws ws' : Workspace) : Prop extends SamePlaces ws ws' where
  others : ∀ id, id ≠ x → ws'.file? id = ws.file? id

theorem place_putEntry {id : FileId} {f g : SourceFile} (paths : f.path = g.path)
    (files : List (FileId × SourceFile)) : (putEntry id g files).map place = (putEntry id f files).map place := by
  induction files with
  | nil => simp [putEntry, place, paths]
  | cons entry rest ih =>
    rw [putEntry, putEntry]
    split
    · simp [place, paths]
    · rw [List.map_cons, List.map_cons, ih]

theorem lookup_putEntry {id other : FileId} {f : SourceFile} {files : List (FileId × SourceFile)} :
    (putEntry id f files).lookup other = if other = id then some f else files.lookup other := by
  induction files with
  | nil => grind [putEntry]
  | cons entry rest ih =>
    rw [putEntry]
    split <;> grind

@[simp] theorem file?_insert (ws : Workspace) (id other : FileId) (f : SourceFile) :
    (ws.insert id f).file? other = if other = id then some f else ws.file? other :=
  lookup_putEntry

theorem putEntry_of_lookup {id : FileId} {f : SourceFile} {files : List (FileId × SourceFile)}
    (found : files.lookup id = some f) : putEntry id f files = files := by
  induction files with
  | nil => cases found
  | cons entry rest ih =>
    rw [putEntry]
    rw [List.lookup_cons] at found
    split
    · rename_i same
      rw [same] at found
      cases found
      rfl
    · rename_i different
      rw [Bool.eq_false_of_not_eq_true different] at found
      rw [ih found]

/-- Files at one path that are taken in under one number make a difference only there. -/
theorem editedAt_insert (ws : Workspace) (id : FileId) {f g : SourceFile} (paths : f.path = g.path) :
    EditedAt id (ws.insert id f) (ws.insert id g) where
  fileSet := rfl
  config := rfl
  files := place_putEntry paths ws.files
  others other different := by rw [file?_insert, file?_insert, if_neg different, if_neg different]

theorem insert_of_file? {ws : Workspace} {id : FileId} {f : SourceFile} (found : ws.file? id = some f) :
    ws.insert id f = ws := by
  have files := putEntry_of_lookup found
  cases ws
  simp only [insert, files]

theorem setText_of_fileId? {ws : Workspace} {path : Path} {id : FileId} (atPath : ws.fileId? path = some id)
    (text : String) : ws.setText path text = (id, ws.insert id (.ofText path.normalize text)) := by
  have numbered := (Option.filter_eq_some_iff.mp atPath).1
  simp only [setText, FileSet.assign_of_get? numbered]

/-- A file that is at hand stays in its place when it gets another text. -/
theorem Orderly.editedAt_setText {ws : Workspace} (orderly : ws.Orderly) {path : Path} {x : FileId}
    (atPath : ws.fileId? path = some x) (text : String) : EditedAt x ws (ws.setText path text).2 := by
  obtain ⟨g, member, paths⟩ := orderly.fileId?_eq_some_iff.mp atPath
  have edited := editedAt_insert ws x (f := g) (g := .ofText path.normalize text) paths
  rw [setText_of_fileId? atPath]
  rwa [insert_of_file? (file?_of_mem_files member)] at edited

namespace EditedAt

variable {x : FileId} {ws ws' : Workspace} (edited : EditedAt x ws ws')
include edited

theorem package?_eq {id : FileId} (other : id ≠ x) : ws'.package? id = ws.package? id := by
  rw [package?, package?, edited.others id other]

/-- In a directory where the file is not, nothing changes. -/
theorem packageFiles_eq {dir : Path} (outside : x ∉ ws.filesIn dir) :
    ws'.packageFiles dir = ws.packageFiles dir := by
  have other {id : FileId} (member : id ∈ ws.filesIn dir) : ws'.package? id = ws.package? id :=
    edited.package?_eq fun same => outside (same ▸ member)
  have packages : ws'.packageOfDirectory? dir = ws.packageOfDirectory? dir := by
    simp only [packageOfDirectory?, edited.filesIn, List.filterMap_congr fun id member => other member]
  simp only [packageFiles, packages, edited.filesIn]
  exact List.filter_congr fun id member => by rw [other member]

theorem dotImported_eq {file : FileId} {table : ImportTable} (filter : ScopeFilter)
    (outside : ∀ path ∈ table.dotPaths, ∀ dir, ws.importDirectory? file path = some dir → x ∉ ws.filesIn dir) :
    Scope.dotImported ws' file table filter = Scope.dotImported ws file table filter := by
  rw [Scope.dotImported, funext (edited.importDirectory? file)]
  refine List.flatMap_congr fun dir member => ?_
  obtain ⟨path, dotted, found⟩ := List.mem_filterMap.mp member
  have apart := outside path dotted dir found
  rw [edited.packageFiles_eq apart]
  refine List.flatMap_congr fun id among => ?_
  have other : id ≠ x := fun same => apart (same ▸ (List.mem_filter.mp among).1)
  rw [Scope.topLevelOf, edited.others id other, Scope.topLevelOf]

/-- Another file shows the same names, if the packages that it imports without a qualifier are elsewhere. -/
theorem ofFile_eq {home file : FileId} {element : Node} {isLocal : Bool} {filter : ScopeFilter}
    (other : file ≠ x)
    (outside : isLocal = true → ∀ f, ws.file? file = some f → ∀ path ∈ (ImportTable.ofFile f.root).dotPaths,
      ∀ dir, ws.importDirectory? file path = some dir → x ∉ ws.filesIn dir) :
    Scope.ofFile ws' home element file isLocal filter = Scope.ofFile ws home element file isLocal filter := by
  rw [Scope.ofFile, edited.others file other, Scope.ofFile]
  cases found : ws.file? file with
  | none => rfl
  | some f =>
    cases isLocal with
    | false => rfl
    | true =>
      have imports := edited.dotImported_eq filter (outside rfl f found)
      have names : Scope.importNames ws' file (ImportTable.ofFile f.root) =
          Scope.importNames ws file (ImportTable.ofFile f.root) := by
        simp only [Scope.importNames, edited.resolveImport]
      simp only [imports, names]

/-- A name without a qualifier is looked for in the same files, if in the directory the edited one is of
another package before and after. -/
theorem unqualifiedFiles_eq {file : FileId} (other : file ≠ x)
    (apart : ∀ dir, ws.directoryOf? file = some dir → x ∈ ws.filesIn dir →
      ws.package? x ≠ ws.package? file ∧ ws'.package? x ≠ ws.package? file) :
    Scope.unqualifiedFiles ws' file = Scope.unqualifiedFiles ws file := by
  have siblings : ((ws.directoryOf? file).toList.flatMap ws.filesIn).filter
        (fun id => id != file && ((ws.package? file).isNone || ws'.package? id == ws.package? file)) =
      ((ws.directoryOf? file).toList.flatMap ws.filesIn).filter
        (fun id => id != file && ((ws.package? file).isNone || ws.package? id == ws.package? file)) := by
    refine List.filter_congr fun id member => ?_
    obtain ⟨dir, there, inside⟩ := List.mem_flatMap.mp member
    by_cases same : id = x
    · obtain ⟨before, after⟩ := apart dir (Option.mem_toList.mp there) (same ▸ inside)
      rw [same, beq_eq_false_iff_ne.mpr before, beq_eq_false_iff_ne.mpr after]
    · rw [edited.package?_eq same]
  simp only [Scope.unqualifiedFiles, edited.package?_eq other, edited.directoryOf?, funext edited.filesIn,
    edited.isBuiltinFile, edited.builtinFile?, siblings]

end EditedAt

end Workspace

namespace Scope

/-- Where a name without a qualifier is looked for: in the file itself, in its package, and in the file of
predeclared names. -/
theorem mem_unqualifiedFiles {ws : Workspace} {file id : FileId} {isLocal : Bool}
    (member : (id, isLocal) ∈ unqualifiedFiles ws file) :
    id = file ∨ (ws.builtinFile? = some id) ∨
      (isLocal = false ∧ ∃ dir, ws.directoryOf? file = some dir ∧ id ∈ ws.filesIn dir ∧
        (ws.package? file = none ∨ ws.package? id = ws.package? file)) := by
  rw [unqualifiedFiles] at member
  rcases List.mem_cons.mp member with own | further
  · exact Or.inl (congrArg Prod.fst own)
  · rcases List.mem_append.mp further with sibling | builtin
    · obtain ⟨_, among, rfl, rfl⟩ := by simpa only [List.mem_map, Prod.mk.injEq] using sibling
      obtain ⟨inside, test⟩ := List.mem_filter.mp among
      obtain ⟨dir, there, here⟩ := List.mem_flatMap.mp inside
      rw [Bool.and_eq_true, Bool.or_eq_true, Option.isNone_iff_eq_none, beq_iff_eq] at test
      exact Or.inr (Or.inr ⟨rfl, dir, Option.mem_toList.mp there, here, test.2⟩)
    · obtain ⟨_, among, rfl, rfl⟩ := by simpa only [List.mem_map, Prod.mk.injEq] using builtin
      split at among
      · cases among
      · exact Or.inr (Or.inl (Option.mem_toList.mp among))

end Scope

namespace Reference

theorem scopeIn_use (ws : Workspace) {r : Reference} (use : r.kind ≠ .importPath) (file : FileId)
    (isLocal : Bool) :
    r.scopeIn ws file isLocal = Scope.ofFile ws r.file r.node file isLocal r.filter := by
  unfold scopeIn
  split
  · rename_i path
    exact absurd path use
  · rfl

/-- A reference without a qualifier stands for the first thing of its name that is visible. -/
theorem resolve_unqualified (ws : Workspace) {r : Reference} (use : r.kind ≠ .importPath)
    (plain : r.qualifier? = none) :
    r.resolve ws = r.name?.bind fun name =>
      Item.find name ((Scope.unqualifiedFiles ws r.file).flatMap fun entry => r.scopeIn ws entry.1 entry.2) := by
  rw [resolve, Workspace.referenceDepth]
  cases named : r.name? with
  | some name =>
    rw [resolveWithin_use use named, plain, Option.bind_some, ← collectFrom_eq_flatMap, find_collectFrom named]
  | none =>
    refine Option.eq_none_iff_forall_ne_some.mpr fun d found => ?_
    obtain ⟨name, other⟩ := exists_name use found
    cases named.symm.trans other

/-- Edits elsewhere do not change what a name stands for. A file gets another text. It is not the one of
the predeclared names, no import without a qualifier of the file of a reference or of the predeclared names
leads to its directory, and it is in another directory than the file of the reference or, before and after,
in another package. Then a reference without a qualifier stands for what it stood for. -/
theorem resolve_setText_elsewhere {ws : Workspace} (orderly : ws.Orderly) {file x : FileId}
    {f g : SourceFile} {path : Path} {text : String}
    (atFile : ws.file? file = some f) (atPath : ws.fileId? path = some x) (atX : ws.file? x = some g)
    (different : file ≠ x) (notBuiltin : ws.builtinFile? ≠ some x)
    (notImported : ∀ importPath ∈ (ImportTable.ofFile f.root).dotPaths, ∀ dir,
      ws.importDirectory? file importPath = some dir → g.isIn dir = false)
    (notPredeclared : ∀ builtin h, ws.builtinFile? = some builtin → ws.file? builtin = some h →
      ∀ importPath ∈ (ImportTable.ofFile h.root).dotPaths, ∀ dir,
        ws.importDirectory? builtin importPath = some dir → g.isIn dir = false)
    (apart : (∀ dir, f.directory? = some dir → g.isIn dir = false) ∨
      f.package.isSome ∧ g.package ≠ f.package ∧ (SourceFile.ofText path.normalize text).package ≠ f.package)
    {r : Reference} (inFile : r.file = file) (use : r.kind ≠ .importPath) (plain : r.qualifier? = none) :
    r.resolve (ws.setText path text).2 = r.resolve ws := by
  have edited := orderly.editedAt_setText atPath text
  have outside {dir : Path} (elsewhere : g.isIn dir = false) : x ∉ ws.filesIn dir := by
    intro member
    obtain ⟨h, found, inside⟩ := Workspace.mem_filesIn.mp member
    cases atX.symm.trans found
    cases elsewhere.symm.trans inside
  have package : ws.package? file = f.package := by rw [Workspace.package?, atFile]; rfl
  have packageBefore : ws.package? x = g.package := by rw [Workspace.package?, atX]; rfl
  have packageAfter :
      (ws.setText path text).2.package? x = (SourceFile.ofText path.normalize text).package := by
    rw [Workspace.setText_of_fileId? atPath, Workspace.package?, Workspace.file?_insert, if_pos rfl]
    rfl
  -- In the directory of the reference the edited file is of another package.
  have inDirectory (dir : Path) (there : ws.directoryOf? file = some dir) (inside : x ∈ ws.filesIn dir) :
      f.package.isSome ∧ g.package ≠ f.package ∧
        (SourceFile.ofText path.normalize text).package ≠ f.package := by
    rw [Workspace.directoryOf?, atFile, Option.bind_some] at there
    exact apart.resolve_left fun elsewhere => outside (elsewhere dir there) inside
  have files : Scope.unqualifiedFiles (ws.setText path text).2 file = Scope.unqualifiedFiles ws file := by
    refine edited.unqualifiedFiles_eq different fun dir there inside => ?_
    rw [package, packageBefore, packageAfter]
    exact (inDirectory dir there inside).2
  have visible (entry : FileId × Bool) (member : entry ∈ Scope.unqualifiedFiles ws file) :
      r.scopeIn (ws.setText path text).2 entry.1 entry.2 = r.scopeIn ws entry.1 entry.2 := by
    unfold scopeIn
    split
    · rfl
    · rcases Scope.mem_unqualifiedFiles member with own | builtin | ⟨inPackage, dir, there, inside, packages⟩
      · refine edited.ofFile_eq (own ▸ different) fun _ h found importPath dotted dir leads => ?_
        rw [own] at found leads
        cases atFile.symm.trans found
        exact outside (notImported importPath dotted dir leads)
      · have other : entry.1 ≠ x := fun same => notBuiltin (same ▸ builtin)
        refine edited.ofFile_eq other fun _ h found importPath dotted dir leads => ?_
        exact outside (notPredeclared entry.1 h builtin found importPath dotted dir leads)
      · refine edited.ofFile_eq (fun same => ?_) fun isLocal => ?_
        · obtain ⟨packaged, before, _⟩ := inDirectory dir there (same ▸ inside)
          rw [same, package, packageBefore] at packages
          rcases packages with missing | equal
          · rw [missing] at packaged
            cases packaged
          · exact before equal
        · cases isLocal.symm.trans inPackage
  rw [resolve_unqualified _ use plain, resolve_unqualified _ use plain, inFile, files,
    List.flatMap_congr visible]

/-- A file that imports a package without a qualifier, and beside it a file of another package. -/
def besideTest : Workspace :=
  let builtin := (({ config := { sdkSrc := some ⟨"/go"⟩ } } : Workspace).setText ⟨"/go/builtin/builtin.go"⟩
    "package builtin\n").2
  let imported := (builtin.setText ⟨"/go/q/q.go"⟩ "package q\nvar X = 1\n").2
  let first := (imported.setText ⟨"/p/a.go"⟩ "package p\nimport . \"q\"\nvar y = X\n").2
  (first.setText ⟨"/p/a_test.go"⟩ "package p_test\n").2

theorem resolve_setText_elsewhere_besideTest :
    ∃ r, at? besideTest ⟨2⟩ 32 = some r ∧ (r.resolve besideTest).isSome = true ∧
      r.resolve (besideTest.setText ⟨"/p/a_test.go"⟩ "package p_test\nvar X = 2\n").2 =
        r.resolve besideTest := by
  have orderly : besideTest.Orderly :=
    ((((Workspace.orderly_empty _).setText ..).setText ..).setText ..).setText ..
  have facts : ((besideTest.file? ⟨2⟩).any fun f => (besideTest.file? ⟨3⟩).any fun g =>
      (besideTest.file? ⟨0⟩).any fun h => (at? besideTest ⟨2⟩ 32).any fun r =>
        ((ImportTable.ofFile f.root).dotPaths.all fun importPath =>
          (besideTest.importDirectory? ⟨2⟩ importPath).all fun dir => !g.isIn dir) &&
        (ImportTable.ofFile h.root).dotPaths.isEmpty && f.package == some "p" && g.package == some "p_test" &&
        r.file == ⟨2⟩ && r.kind == .expr && r.qualifier?.isNone && (r.resolve besideTest).isSome) = true := by
    decide +kernel
  have builtin : besideTest.builtinFile? = some ⟨0⟩ := by decide +kernel
  have atPath : besideTest.fileId? ⟨"/p/a_test.go"⟩ = some ⟨3⟩ := by decide +kernel
  have after : (SourceFile.ofText (Path.mk "/p/a_test.go").normalize "package p_test\nvar X = 2\n").package =
      some "p_test" := by decide +kernel
  simp only [Option.any_eq_true, Bool.and_eq_true, beq_iff_eq, List.all_eq_true, Option.all_eq_true,
    Bool.not_eq_true', List.isEmpty_iff, Option.isNone_iff_eq_none] at facts
  obtain ⟨f, atFile, g, atX, h, atBuiltin, r, found, tests, resolves⟩ := facts
  obtain ⟨⟨⟨⟨⟨⟨dots, none⟩, package⟩, other⟩, inFile⟩, use⟩, plain⟩ := tests
  have apart : f.package.isSome ∧ g.package ≠ f.package ∧
      (SourceFile.ofText (Path.mk "/p/a_test.go").normalize "package p_test\nvar X = 2\n").package ≠ f.package :=
    ⟨by simp [package], by simp [package, other], by simp [package, after]⟩
  refine ⟨r, found, resolves, resolve_setText_elsewhere orderly atFile atPath atX (by decide)
    (by simp [builtin]) dots ?_ (Or.inr apart) inFile (by simp [use]) plain⟩
  intro number there isBuiltin atNumber
  cases builtin.symm.trans isBuiltin
  cases atBuiltin.symm.trans atNumber
  simp [none]

end Reference

end GoNav
