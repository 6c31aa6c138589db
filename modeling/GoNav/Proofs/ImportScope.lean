import GoNav.Proofs.Shadowing

namespace GoNav

/-- What the imports of a file make of a name: an import of the file that is given the name, or the directory
to which the path of an import of that name leads. -/
def Declaration.ImportedBy (ws : Workspace) (file : FileId) (name : String) : Declaration → Prop
  | .node place =>
    place.file = file ∧ place.node.kind = .importSpec ∧
      ∃ f, ws.file? file = some f ∧ .spec place.node ∈ (ImportTable.ofFile f.root).get name
  | .directory dir =>
    ∃ f, ws.file? file = some f ∧ ∃ spec path,
      .path spec path ∈ (ImportTable.ofFile f.root).get name ∧ ws.importDirectory? file path = some dir

/-- Whether an item is the name of an import. Where its package is not at hand it stands for nothing. -/
def Item.isImport (item : Item) : Bool :=
  item.declaration.all Declaration.isPackage

theorem Item.not_isImport {item : Item} {file : FileId} {n : Node} (defines : n.IsDefinition)
    (declared : item.declaration = some (.node ⟨file, n⟩)) : item.isImport = false := by
  simp [isImport, declared, Declaration.isPackage, defines.2]

namespace Scope

variable {ws : Workspace} {file home : FileId} {element : Node} {filter : ScopeFilter} {item : Item}

/-- The names of the imports of a file, if it is at hand. -/
def importNamesOf (ws : Workspace) (file : FileId) : List Item :=
  match ws.file? file with
  | none => []
  | some f => importNames ws file (.ofFile f.root)

theorem not_isImport_of_mem_walkUp (member : item ∈ walkUp home element filter) : item.isImport = false := by
  obtain ⟨n, among, declared, _⟩ := mem_itemsOf member
  exact Item.not_isImport (enclosing_spec among).2 declared

theorem not_isImport_of_mem_topLevelOf (member : item ∈ topLevelOf ws file filter) : item.isImport = false := by
  unfold topLevelOf at member
  split at member
  · cases member
  · obtain ⟨n, among, declared, _⟩ := mem_itemsOf member
    exact Item.not_isImport (topLevelDeclared_spec among).2 declared

/-- A file shows names of imports in local mode only, and only those of its own. -/
theorem mem_importNamesOf_of_isImport {isLocal : Bool}
    (member : item ∈ ofFile ws home element file isLocal filter) (imported : item.isImport = true) :
    isLocal = true ∧ item ∈ importNamesOf ws file := by
  unfold ofFile at member
  split at member
  · cases member
  · rename_i f found
    simp only [List.mem_append] at member
    rcases member with (around | top) | outside
    · split at around
      · rw [not_isImport_of_mem_walkUp around] at imported
        cases imported
      · cases around
    · have own : item ∈ topLevelOf ws file filter := by rw [topLevelOf, found]; exact top
      rw [not_isImport_of_mem_topLevelOf own] at imported
      cases imported
    · split at outside
      · rename_i inLocalMode
        rcases List.mem_append.mp outside with named | dotted
        · exact ⟨inLocalMode, by rwa [importNamesOf, found]⟩
        · -- An import without a qualifier brings in what its package declares, not what it imports.
          obtain ⟨dir, _, inside⟩ := List.mem_flatMap.mp dotted
          obtain ⟨other, _, top⟩ := List.mem_flatMap.mp inside
          rw [not_isImport_of_mem_topLevelOf top] at imported
          cases imported
      · cases outside

theorem importedBy_of_mem_importNamesOf {d : Declaration} (member : item ∈ importNamesOf ws file)
    (declared : item.declaration = some d) : d.ImportedBy ws file item.name := by
  unfold importNamesOf at member
  split at member
  · cases member
  · rename_i f found
    obtain ⟨name, _, rfl⟩ := List.mem_map.mp member
    obtain ⟨entry, among, stands⟩ := List.exists_of_findSome?_eq_some declared
    obtain ⟨spec, imported, made⟩ := ImportTable.exists_import among
    rcases ImportTable.entryOf?_cases made with ⟨l, _, _, rfl⟩ | ⟨path, rfl, _⟩
    · obtain rfl := Option.some.inj stands
      obtain ⟨outer, _, inside⟩ := List.mem_flatMap.mp imported
      exact ⟨rfl, Node.kind_of_mem_childrenOf inside, f, found, among⟩
    · obtain ⟨dir, leads, rfl⟩ := Option.map_eq_some_iff.mp stands
      exact ⟨f, found, spec, path, among, leads⟩

theorem own_of_mem_ownFiles {entry : FileId × Bool} (member : entry ∈ ownFiles ws file)
    (inLocalMode : entry.2 = true) : entry.1 = file := by
  rcases List.mem_cons.mp member with rfl | sibling
  · rfl
  · obtain ⟨_, _, rfl⟩ := List.mem_map.mp sibling
    cases inLocalMode

theorem not_isBuiltinFile_of_mem_lastFiles {entry : FileId × Bool} (member : entry ∈ lastFiles ws file) :
    ws.isBuiltinFile file = false := by
  unfold lastFiles at member
  split at member
  · cases member
  · rename_i other
    exact Bool.not_eq_true _ ▸ other

end Scope

namespace Reference

variable {ws : Workspace} {r : Reference} {name : String}

/-- The names of imports that the files of a package show to a reference are those of its own file. -/
theorem mem_importNamesOf_of_ownFiles (use : r.kind ≠ .importPath) {entry : FileId × Bool} {item : Item}
    (listed : entry ∈ Scope.ownFiles ws r.file) (visible : item ∈ r.scopeIn ws entry.1 entry.2)
    (imported : item.isImport = true) : item ∈ Scope.importNamesOf ws r.file := by
  rw [scopeIn_use ws use] at visible
  obtain ⟨inLocalMode, named⟩ := Scope.mem_importNamesOf_of_isImport visible imported
  rwa [Scope.own_of_mem_ownFiles listed inLocalMode] at named

/-- Behind them come those of the file of predeclared names, unless the reference is in a file called so. -/
theorem mem_importNamesOf_of_lastFiles (use : r.kind ≠ .importPath) {entry : FileId × Bool} {item : Item}
    (listed : entry ∈ Scope.lastFiles ws r.file) (visible : item ∈ r.scopeIn ws entry.1 entry.2)
    (imported : item.isImport = true) :
    ws.isBuiltinFile r.file = false ∧
      ∃ builtin, ws.builtinFile? = some builtin ∧ item ∈ Scope.importNamesOf ws builtin := by
  rw [scopeIn_use ws use] at visible
  exact ⟨Scope.not_isBuiltinFile_of_mem_lastFiles listed, entry.1, Scope.mem_lastFiles listed,
    (Scope.mem_importNamesOf_of_isImport visible imported).2⟩

theorem exists_item_of_find {items : List Item} {d : Declaration} (found : Item.find name items = some d) :
    ∃ item ∈ items, item.name = name ∧ item.declaration = some d := by
  obtain ⟨item, member, chosen⟩ := List.exists_of_findSome?_eq_some found
  split at chosen
  · exact ⟨item, member, ‹_›, chosen⟩
  · cases chosen

/-- Names of imports are visible in their own file, and those of the file of predeclared names in all files
that are not called like it. Of the names that could stand in the place of a reference without a qualifier,
those of imports come from one of these two files. What the reference stands for, if that is a package, is made
of its name by the imports of its own file; or else no file of its package has the name, and it is made of it by
the imports of the file of predeclared names. -/
theorem resolve_import_scoped (use : r.kind ≠ .importPath) (plain : r.qualifier? = none)
    (named : r.name? = some name) :
    (∀ item ∈ r.candidates ws, item.isImport = true →
      item ∈ Scope.importNamesOf ws r.file ∨
        ws.isBuiltinFile r.file = false ∧
          ∃ builtin, ws.builtinFile? = some builtin ∧ item ∈ Scope.importNamesOf ws builtin) ∧
    ∀ d, r.resolve ws = some d → d.isPackage = true →
      d.ImportedBy ws r.file name ∨
        ws.isBuiltinFile r.file = false ∧
          (∀ entry ∈ Scope.ownFiles ws r.file, r.lookupIn ws entry.1 entry.2 = none) ∧
          ∃ builtin, ws.builtinFile? = some builtin ∧ d.ImportedBy ws builtin name := by
  constructor
  · intro item member imported
    rw [candidates_use use, plain, collectFrom_eq_flatMap] at member
    obtain ⟨entry, listed, visible⟩ := List.mem_flatMap.mp member
    rw [Scope.unqualifiedFiles_eq] at listed
    rcases List.mem_append.mp listed with own | last
    · exact .inl (mem_importNamesOf_of_ownFiles use own visible imported)
    · exact .inr (mem_importNamesOf_of_lastFiles use last visible imported)
  · intro d found package
    have isImport {item : Item} (declared : item.declaration = some d) : item.isImport = true := by
      rw [Item.isImport, declared, Option.all_some, package]
    rw [resolve_unqualified ws use plain, named, Option.bind_some, Scope.unqualifiedFiles_eq,
      List.flatMap_append, Item.find_append] at found
    rcases Option.or_eq_some_iff.mp found with own | ⟨nothing, last⟩
    · obtain ⟨item, member, rfl, declared⟩ := exists_item_of_find own
      obtain ⟨entry, listed, visible⟩ := List.mem_flatMap.mp member
      have fromFile := mem_importNamesOf_of_ownFiles use listed visible (isImport declared)
      exact .inl (Scope.importedBy_of_mem_importNamesOf fromFile declared)
    · obtain ⟨item, member, rfl, declared⟩ := exists_item_of_find last
      obtain ⟨entry, listed, visible⟩ := List.mem_flatMap.mp member
      obtain ⟨notBuiltin, builtin, isBuiltin, fromFile⟩ :=
        mem_importNamesOf_of_lastFiles use listed visible (isImport declared)
      refine .inr ⟨notBuiltin, fun other among => ?_, builtin, isBuiltin,
        Scope.importedBy_of_mem_importNamesOf fromFile declared⟩
      rw [Item.find_flatMap] at nothing
      rw [lookupIn_eq_find, named, Option.bind_some]
      exact List.findSome?_eq_none_iff.mp nothing other among

/-- The predeclared names with two imports, and a file of another package that has none. -/
def leaking : Workspace :=
  let builtin := (({ config := { sdkSrc := some ⟨"/sdk"⟩ } } : Workspace).setText ⟨"/sdk/builtin/builtin.go"⟩
    "package builtin\nimport \"q\"\nimport s \"q\"\n").2
  let package := (builtin.setText ⟨"/sdk/q/q.go"⟩ "package q\n").2
  (package.setText ⟨"/p/a.go"⟩ "package p\nvar x = q\nvar y s\n").2

/-- A reference can stand for an import of another file, and for a directory that its own file does not
import: here both are imports of the file of predeclared names. -/
theorem resolve_import_elsewhere :
    ∃ f, leaking.file? ⟨2⟩ = some f ∧
      (∃ r place, at? leaking ⟨2⟩ 26 = some r ∧ r.kind = .typeName ∧ r.qualifier? = none ∧
        r.resolve leaking = some (.node place) ∧ place.node.kind = .importSpec ∧ place.file ≠ r.file) ∧
      ∃ r dir, at? leaking ⟨2⟩ 18 = some r ∧ r.kind = .expr ∧ r.qualifier? = none ∧ r.name? = some "q" ∧
        r.resolve leaking = some (.directory dir) ∧
        ((ImportTable.ofFile f.root).get "q").isEmpty = true := by
  have facts : ((leaking.file? ⟨2⟩).any fun f =>
      ((at? leaking ⟨2⟩ 26).any fun r => r.kind == .typeName && r.qualifier?.isNone && r.file == ⟨2⟩ &&
        (r.resolve leaking).any fun d => d.file? == some ⟨0⟩ && d.isPackage) &&
      (at? leaking ⟨2⟩ 18).any fun r => r.kind == .expr && r.qualifier?.isNone && r.name? == some "q" &&
        ((r.resolve leaking).any fun d => d.file? == none) &&
        ((ImportTable.ofFile f.root).get "q").isEmpty) = true := by decide +kernel
  simp only [Option.any_eq_true, Bool.and_eq_true, beq_iff_eq, Option.isNone_iff_eq_none] at facts
  obtain ⟨f, atFile, ⟨r, atR, ⟨⟨typeName, plainR⟩, inFile⟩, d, foundR, stands, package⟩,
    s, atS, ⟨⟨⟨expr, plainS⟩, called⟩, e, foundS, noFile⟩, unknown⟩ := facts
  obtain ⟨n, rfl⟩ := Declaration.exists_node_of_file? stands
  refine ⟨f, atFile, ⟨r, _, atR, typeName, plainR, foundR, eq_of_beq package, by simp [inFile]⟩, ?_⟩
  cases e with
  | node place => cases noFile
  | directory dir => exact ⟨s, dir, atS, expr, plainS, called, foundS, unknown⟩

theorem resolve_import_scoped_leaking :
    ∃ r d, at? leaking ⟨2⟩ 18 = some r ∧ r.kind ≠ .importPath ∧ r.qualifier? = none ∧ r.name? = some "q" ∧
      r.resolve leaking = some d ∧ d.isPackage = true ∧
      (d.ImportedBy leaking r.file "q" ∨
        leaking.isBuiltinFile r.file = false ∧
          (∀ entry ∈ Scope.ownFiles leaking r.file, r.lookupIn leaking entry.1 entry.2 = none) ∧
          ∃ builtin, leaking.builtinFile? = some builtin ∧ d.ImportedBy leaking builtin "q") := by
  have facts : ((at? leaking ⟨2⟩ 18).any fun r => r.kind != .importPath && r.qualifier?.isNone &&
      r.name? == some "q" && (r.resolve leaking).any Declaration.isPackage) = true := by decide +kernel
  simp only [Option.any_eq_true, Bool.and_eq_true, beq_iff_eq, bne_iff_ne, Option.isNone_iff_eq_none] at facts
  obtain ⟨r, atOffset, ⟨⟨use, plain⟩, named⟩, d, found, package⟩ := facts
  exact ⟨r, d, atOffset, use, plain, named, found, package,
    (resolve_import_scoped use plain named).2 d found package⟩

end Reference

end GoNav
