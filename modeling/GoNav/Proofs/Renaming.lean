import GoNav.Completion
import GoNav.Proofs.Candidates
import GoNav.Proofs.PathOrder
import GoNav.Proofs.References

namespace GoNav

/-! Putting other numbers in the place of those of files -/

section Numbers

variable (ρ : FileId → FileId)

def FileNode.rename (place : FileNode) : FileNode :=
  ⟨ρ place.file, place.node⟩

def Declaration.rename : Declaration → Declaration
  | .node place => .node (place.rename ρ)
  | .directory path => .directory path

def Item.rename (item : Item) : Item :=
  { item with declaration := item.declaration.map (Declaration.rename ρ) }

def Reference.rename (r : Reference) : Reference :=
  { r with file := ρ r.file }

def Qualifier.rename : Qualifier → Qualifier
  | .reference inner => .reference (inner.rename ρ)
  | .literal typ => .literal (typ.rename ρ)
  | .other => .other

def Target.rename (target : Target) : Target :=
  { target with file := target.file.map ρ }

end Numbers

/-- The second workspace is the first with other numbers for its files, and with the files in any
order. Files at hand have paths of their own, by which they are put in order. -/
structure Workspace.Renames (ρ : FileId → FileId) (ws ws' : Workspace) : Prop where
  injective : Function.Injective ρ
  config : ws'.config = ws.config
  files : ws'.files.Perm (ws.files.map fun entry => (ρ entry.1, entry.2))
  apart : ws.files.Pairwise fun a b => ¬ (a.2.path == b.2.path) = true
  fileId? : ∀ path, ws'.fileId? path = (ws.fileId? path).map ρ

/-! What is told by the data alone -/

section Data

variable {ρ : FileId → FileId}

@[simp] theorem FileNode.node_rename (place : FileNode) : (place.rename ρ).node = place.node := rfl

namespace Declaration

@[simp] theorem name?_rename (d : Declaration) : (d.rename ρ).name? = d.name? := by
  cases d <;> rfl

@[simp] theorem kind_rename (d : Declaration) : (d.rename ρ).kind = d.kind := by
  cases d <;> rfl

theorem type?_rename (d : Declaration) : (d.rename ρ).type? = d.type?.map (FileNode.rename ρ) := by
  cases d with
  | node place => simp [type?, rename, FileNode.rename, Function.comp_def]
  | directory path => rfl

theorem typeSpec?_rename (d : Declaration) :
    (d.rename ρ).typeSpec? = d.typeSpec?.map (FileNode.rename ρ) := by
  cases d with
  | node place =>
    simp only [rename, typeSpec?, FileNode.rename]
    split <;> rfl
  | directory path => rfl

theorem ofNode?_rename (file : FileId) (n : Node) :
    ofNode? (ρ file) n = (ofNode? file n).map (rename ρ) := by
  unfold ofNode?
  split <;> rfl

end Declaration

theorem FileNode.rename_beq (injective : Function.Injective ρ) (a b : FileNode) :
    (a.rename ρ == b.rename ρ) = (a == b) := by
  have files : (ρ a.file == ρ b.file) = (a.file == b.file) := by
    rw [Bool.eq_iff_iff, beq_iff_eq, beq_iff_eq]
    exact injective.eq_iff
  exact congrArg (· && a.node == b.node) files

theorem Declaration.rename_beq (injective : Function.Injective ρ) (a b : Declaration) :
    (a.rename ρ == b.rename ρ) = (a == b) := by
  cases a with
  | node place =>
    cases b with
    | node other => exact FileNode.rename_beq injective place other
    | directory path => rfl
  | directory path => cases b <;> rfl

theorem ScopeFilter.accepts_rename (filter : ScopeFilter) (d : Declaration) :
    filter.accepts (d.rename ρ) = filter.accepts d := by
  cases filter <;> cases d <;> rfl

namespace Item

@[simp] theorem name_rename (item : Item) : (item.rename ρ).name = item.name := rfl

theorem ofDeclaration?_rename (d : Declaration) :
    ofDeclaration? (d.rename ρ) = (ofDeclaration? d).map (rename ρ) := by
  simp [ofDeclaration?, rename, Function.comp_def]

theorem filterMap_rename (declarations : List Declaration) :
    (declarations.map (Declaration.rename ρ)).filterMap ofDeclaration? =
      (declarations.filterMap ofDeclaration?).map (rename ρ) := by
  rw [List.filterMap_map, List.map_filterMap]
  exact congrArg (List.filterMap · _) (funext ofDeclaration?_rename)

theorem find_rename (name : String) (items : List Item) :
    find name (items.map (rename ρ)) = (find name items).map (Declaration.rename ρ) := by
  rw [find, List.findSome?_map, find, List.map_findSome?]
  congr 1
  funext item
  by_cases same : item.name = name <;> simp [rename, same]

end Item

theorem Scope.itemsOf_rename (file : FileId) (filter : ScopeFilter) (nodes : List Node) :
    itemsOf (ρ file) filter nodes = (itemsOf file filter nodes).map (Item.rename ρ) := by
  have declared : nodes.map (fun n => Declaration.node ⟨ρ file, n⟩) =
      (nodes.map fun n => Declaration.node ⟨file, n⟩).map (Declaration.rename ρ) := by
    rw [List.map_map]
    rfl
  have accepted : filter.accepts ∘ Declaration.rename ρ = filter.accepts :=
    funext filter.accepts_rename
  rw [itemsOf, declared, List.filter_map, accepted, Item.filterMap_rename, itemsOf]

namespace Reference

@[simp] theorem name?_rename (r : Reference) : (r.rename ρ).name? = r.name? := rfl

theorem ofNode?_rename (file : FileId) (n : Node) :
    ofNode? (ρ file) n = (ofNode? file n).map (rename ρ) := by
  simp [ofNode?, rename, Function.comp_def]

theorem qualifier?_rename (r : Reference) :
    (r.rename ρ).qualifier? = r.qualifier?.map (Qualifier.rename ρ) := by
  unfold qualifier? rename
  cases r.kind with
  | importPath => rfl
  | typeName => simp only [Option.map_map]; rfl
  | expr =>
    simp only [Option.map_map]
    congr 1
    funext e
    simp only [Function.comp_apply]
    split
    · rfl
    · split <;> rfl

end Reference

namespace Members

theorem owner?_rename (typ : FileNode) : owner? (typ.rename ρ) = (owner? typ).map (FileNode.rename ρ) := by
  simp only [owner?, Option.map_map]
  rfl

theorem pointee?_rename (typ : FileNode) :
    pointee? (typ.rename ρ) = (pointee? typ).map (FileNode.rename ρ) := by
  by_cases pointer : typ.node.kind == .pointerType
  · simp only [pointee?, FileNode.rename, pointer, if_true, Option.map_map]
    rfl
  · simp only [pointee?, FileNode.rename, pointer]
    rfl

theorem reference?_rename (typ : FileNode) :
    reference? (typ.rename ρ) = (reference? typ).map (FileNode.rename ρ) := by
  simp only [reference?, Option.map_map]
  rfl

theorem embedded_rename (typ : FileNode) :
    embedded (typ.rename ρ) = (embedded typ).map (FileNode.rename ρ) := by
  simp only [embedded, List.map_filterMap, Option.map_map]
  rfl

theorem named_rename (name : String) (nodes : List FileNode) :
    named name (nodes.map (FileNode.rename ρ)) = (named name nodes).map (Declaration.rename ρ) := by
  simp only [named, List.find?_map, Option.map_map]
  rfl

theorem named_mk_rename (name : String) (typ : FileNode) (nodes : List Node) :
    named name (nodes.map fun n => ⟨(typ.rename ρ).file, n⟩) =
      (named name (nodes.map fun n => ⟨typ.file, n⟩)).map (Declaration.rename ρ) := by
  rw [← named_rename, List.map_map]
  rfl

theorem map_node_rename (typ : FileNode) (nodes : List Node) :
    (nodes.map fun n => Declaration.node ⟨(typ.rename ρ).file, n⟩) =
      (nodes.map fun n => Declaration.node ⟨typ.file, n⟩).map (Declaration.rename ρ) := by
  rw [List.map_map]
  rfl

theorem contains_rename (injective : Function.Injective ρ) (path : List FileNode) (spec : FileNode) :
    (path.map (FileNode.rename ρ)).contains (spec.rename ρ) = path.contains spec := by
  simp only [List.contains_eq_any_beq, List.any_map, Function.comp_def, FileNode.rename_beq injective]

/-- Searches that agree on a type agree on what a reference to one leads to. -/
theorem behind_rename {specOf specOf' : FileNode → Option FileNode}
    (specs : ∀ place, specOf' (place.rename ρ) = (specOf place).map (FileNode.rename ρ))
    {inside inside' : FileNode → Option Declaration}
    (agree : ∀ typ, inside' (typ.rename ρ) = (inside typ).map (Declaration.rename ρ))
    (text : String) (reference : FileNode) :
    ((specOf' (reference.rename ρ)).bind fun spec => spec.node.typeExpr.bind fun inner =>
        if text = inner.text then none else inside' ⟨spec.file, inner⟩) =
      ((specOf reference).bind fun spec => spec.node.typeExpr.bind fun inner =>
        if text = inner.text then none else inside ⟨spec.file, inner⟩).map (Declaration.rename ρ) := by
  rw [specs]
  cases specOf reference with
  | none => rfl
  | some spec =>
    simp only [Option.map_some, Option.bind_some, FileNode.rename]
    cases spec.node.typeExpr with
    | none => rfl
    | some inner =>
      simp only [Option.bind_some]
      split
      · rfl
      · exact agree ⟨spec.file, inner⟩

end Members

end Data

/-! What is found in the workspace -/

namespace Workspace.Renames

variable {ρ : FileId → FileId} {ws ws' : Workspace}

theorem file? (renames : Renames ρ ws ws') (id : FileId) : ws'.file? (ρ id) = ws.file? id := by
  refine Option.ext fun f => ⟨fun found => ?_, fun found => ?_⟩
  · have member := renames.files.mem_iff.mp (mem_files_of_file? found)
    obtain ⟨⟨other, g⟩, among, same⟩ := List.mem_map.mp member
    obtain ⟨numbers, rfl⟩ := Prod.mk.inj same
    cases renames.injective numbers
    exact file?_of_mem_files among
  · have moved := List.mem_map_of_mem (f := fun entry => (ρ entry.1, entry.2)) (mem_files_of_file? found)
    exact file?_of_mem_files (renames.files.mem_iff.mpr moved)

variable (renames : Renames ρ ws ws')
include renames

theorem package? (id : FileId) : ws'.package? (ρ id) = ws.package? id := by
  rw [Workspace.package?, renames.file?, Workspace.package?]

theorem directoryOf? (id : FileId) : ws'.directoryOf? (ρ id) = ws.directoryOf? id := by
  rw [Workspace.directoryOf?, renames.file?, Workspace.directoryOf?]

theorem isBuiltinFile (id : FileId) : ws'.isBuiltinFile (ρ id) = ws.isBuiltinFile id := by
  rw [Workspace.isBuiltinFile, renames.file?, renames.config, Workspace.isBuiltinFile]

theorem builtinFile? : ws'.builtinFile? = ws.builtinFile?.map ρ := by
  rw [Workspace.builtinFile?, renames.config, Workspace.builtinFile?, Option.map_bind]
  exact congrArg _ (funext renames.fileId?)

theorem filesIn (dir : Path) : ws'.filesIn dir = (ws.filesIn dir).map ρ := by
  have inside := renames.files.filter (·.2.isIn dir)
  rw [List.filter_map] at inside
  rw [Workspace.filesIn, sorted_files_eq (renames.apart.filter _) inside, Workspace.filesIn, List.map_map,
    List.map_map]
  rfl

theorem hasDirectory (dir : Path) : ws'.hasDirectory dir = ws.hasDirectory dir := by
  rw [Workspace.hasDirectory, renames.files.any_eq, List.any_map]
  rfl

theorem packageOfDirectory? (dir : Path) : ws'.packageOfDirectory? dir = ws.packageOfDirectory? dir := by
  have packages : (ws'.filesIn dir).filterMap ws'.package? = (ws.filesIn dir).filterMap ws.package? := by
    rw [renames.filesIn, List.filterMap_map]
    exact congrArg (List.filterMap · _) (funext renames.package?)
  simp only [Workspace.packageOfDirectory?, packages]

theorem packageFiles (dir : Path) : ws'.packageFiles dir = (ws.packageFiles dir).map ρ := by
  simp only [Workspace.packageFiles, renames.filesIn, renames.packageOfDirectory?, List.filter_map,
    Function.comp_def, renames.package?]

theorem importDirectory? (id : FileId) (importPath : String) :
    ws'.importDirectory? (ρ id) importPath = ws.importDirectory? id importPath := by
  have there : ws'.hasDirectory = ws.hasDirectory := funext renames.hasDirectory
  simp only [Workspace.importDirectory?, renames.directoryOf?, renames.config, there]

/-! Scopes -/

theorem resolveImport (table : ImportTable) (file : FileId) (name : String) :
    table.resolve ws' (ρ file) name = (table.resolve ws file name).map (Declaration.rename ρ) := by
  rw [ImportTable.resolve, ImportTable.resolve, List.map_findSome?]
  congr 1
  funext entry
  cases entry with
  | spec node => rfl
  | path node path =>
    simp only [Function.comp_apply, renames.importDirectory?, Option.map_map]
    rfl

theorem importNames (file : FileId) (table : ImportTable) :
    Scope.importNames ws' (ρ file) table = (Scope.importNames ws file table).map (Item.rename ρ) := by
  simp [Scope.importNames, Item.rename, renames.resolveImport, Function.comp_def]

theorem topLevelOf (file : FileId) (filter : ScopeFilter) :
    Scope.topLevelOf ws' (ρ file) filter = (Scope.topLevelOf ws file filter).map (Item.rename ρ) := by
  simp only [Scope.topLevelOf, renames.file?]
  cases ws.file? file with
  | none => rfl
  | some f => exact Scope.itemsOf_rename ..

theorem dotImported (file : FileId) (table : ImportTable) (filter : ScopeFilter) :
    Scope.dotImported ws' (ρ file) table filter =
      (Scope.dotImported ws file table filter).map (Item.rename ρ) := by
  have directories : ws'.importDirectory? (ρ file) = ws.importDirectory? file :=
    funext (renames.importDirectory? file)
  simp only [Scope.dotImported, directories, renames.packageFiles, List.flatMap_map, renames.topLevelOf,
    List.map_flatMap]

theorem eq_iff (a b : FileId) : (ρ a == ρ b) = (a == b) := by
  rw [Bool.eq_iff_iff, beq_iff_eq, beq_iff_eq]
  exact renames.injective.eq_iff

theorem ofFile (home : FileId) (element : Node) (file : FileId) (isLocal : Bool) (filter : ScopeFilter) :
    Scope.ofFile ws' (ρ home) element (ρ file) isLocal filter =
      (Scope.ofFile ws home element file isLocal filter).map (Item.rename ρ) := by
  simp only [Scope.ofFile, renames.file?]
  cases ws.file? file with
  | none => rfl
  | some f =>
    simp only [renames.eq_iff, Scope.walkUp, Scope.topLevel, Scope.itemsOf_rename, renames.importNames,
      renames.dotImported, List.map_append, apply_ite (List.map (Item.rename ρ)), List.map_nil]

theorem unqualifiedFiles (file : FileId) :
    Scope.unqualifiedFiles ws' (ρ file) =
      (Scope.unqualifiedFiles ws file).map fun entry => (ρ entry.1, entry.2) := by
  have around : ws'.filesIn = fun dir => (ws.filesIn dir).map ρ := funext renames.filesIn
  have builtin : (if ws.isBuiltinFile file then [] else (ws.builtinFile?.map ρ).toList) =
      (if ws.isBuiltinFile file then [] else ws.builtinFile?.toList).map ρ := by
    cases ws.isBuiltinFile file <;> cases ws.builtinFile? <;> rfl
  simp only [Scope.unqualifiedFiles, renames.package?, renames.directoryOf?, renames.isBuiltinFile,
    renames.builtinFile?, builtin, around, ← List.map_flatMap, List.filter_map, Function.comp_def, bne,
    renames.eq_iff, List.map_append, List.map_cons, List.map_map]

theorem packageDirectory? (d : Declaration) :
    Scope.packageDirectory? ws' (d.rename ρ) = Scope.packageDirectory? ws d := by
  cases d with
  | directory path => rfl
  | node place =>
    have directories : ws'.importDirectory? (ρ place.file) = ws.importDirectory? place.file :=
      funext (renames.importDirectory? place.file)
    simp only [Declaration.rename, FileNode.rename, Scope.packageDirectory?, directories]

/-! References -/

theorem scopeIn (r : Reference) (file : FileId) (isLocal : Bool) :
    (r.rename ρ).scopeIn ws' (ρ file) isLocal = (r.scopeIn ws file isLocal).map (Item.rename ρ) := by
  obtain ⟨kind, home, element⟩ := r
  cases kind with
  | importPath => rfl
  | expr | typeName => exact renames.ofFile ..

theorem lookupIn (r : Reference) (file : FileId) (isLocal : Bool) :
    (r.rename ρ).lookupIn ws' (ρ file) isLocal =
      (r.lookupIn ws file isLocal).map (Declaration.rename ρ) := by
  simp only [Reference.lookupIn_eq_find, Reference.name?_rename, renames.scopeIn, Item.find_rename,
    Option.map_bind, Function.comp_def]

theorem collectFrom (r : Reference) (files : List (FileId × Bool)) :
    (r.rename ρ).collectFrom ws' (files.map fun entry => (ρ entry.1, entry.2)) =
      (r.collectFrom ws files).map (Item.rename ρ) := by
  simp only [Reference.collectFrom_eq_flatMap, List.flatMap_map, renames.scopeIn, List.map_flatMap]

theorem at? (file : FileId) (offset : Nat) :
    Reference.at? ws' (ρ file) offset = (Reference.at? ws file offset).map (Reference.rename ρ) := by
  simp only [Reference.at?, renames.file?, Option.map_bind, Function.comp_def, Reference.ofNode?_rename]

/-! Members -/

theorem methodsOf (spec : FileNode) :
    Members.methodsOf ws' (spec.rename ρ) = (Members.methodsOf ws spec).map (FileNode.rename ρ) := by
  simp only [Members.methodsOf, FileNode.rename, renames.directoryOf?]
  split
  · simp only [renames.filesIn, renames.package?, renames.file?, List.filter_map, List.flatMap_map,
      Function.comp_def, List.map_flatMap, List.map_filterMap]
    congr 1
    funext id
    congr 1
    funext method
    split <;> rfl
  · rfl

variable {specOf specOf' : FileNode → Option FileNode}
  (specs : ∀ place, specOf' (place.rename ρ) = (specOf place).map (FileNode.rename ρ))
include specs

theorem search (name : String) (depth : Nat) (typ : FileNode) :
    Members.search ws' specOf' name depth (typ.rename ρ) =
      (Members.search ws specOf name depth typ).map (Declaration.rename ρ) := by
  induction depth generalizing typ with
  | zero => rfl
  | succ depth ih =>
    have inEmbedded := Members.behind_rename specs ih typ.node.text
    have methods : ((Members.owner? (typ.rename ρ)).bind (Members.named name <| Members.methodsOf ws' ·)) =
        ((Members.owner? typ).bind (Members.named name <| Members.methodsOf ws ·)).map (Declaration.rename ρ) := by
      rw [Members.owner?_rename]
      cases Members.owner? typ with
      | none => rfl
      | some spec =>
        simp only [Option.map_some, Option.bind_some, renames.methodsOf, Members.named_rename]
    have fields : Members.ownFields (typ.rename ρ) = Members.ownFields typ := rfl
    have listed : Members.methodSpecs (typ.rename ρ) = Members.methodSpecs typ := rfl
    simp only [Members.search_add_one, methods, fields, listed, Members.embedded_rename, List.findSome?_map,
      Function.comp_def, FileNode.node_rename, Members.named_mk_rename, Option.map_or, List.map_findSome?]
    congr 2
    exact congrArg (List.findSome? · (Members.embedded typ)) (funext inEmbedded)

theorem find (depth : Nat) (typ : FileNode) (name : String) :
    Members.find ws' specOf' depth (typ.rename ρ) name =
      (Members.find ws specOf depth typ name).map (Declaration.rename ρ) := by
  rw [Members.find_eq, Members.find_eq, Option.map_or, renames.search specs, Members.pointee?_rename]
  congr 1
  cases Members.pointee? typ with
  | none => rfl
  | some target =>
    simp only [Option.map_some, Option.bind_some, Members.reference?_rename]
    cases Members.reference? target with
    | none => rfl
    | some reference =>
      exact Members.behind_rename specs (renames.search specs name depth) target.node.text reference

theorem collectIn (depth : Nat) (owner : Option FileNode) (typ : FileNode) (path : List FileNode) :
    Members.collectIn ws' specOf' depth (owner.map (FileNode.rename ρ)) (typ.rename ρ)
        (path.map (FileNode.rename ρ)) =
      (Members.collectIn ws specOf depth owner typ path).map (Declaration.rename ρ) := by
  induction depth generalizing owner typ path with
  | zero => rfl
  | succ depth ih =>
    have fields : Members.ownFields (typ.rename ρ) = Members.ownFields typ := rfl
    have listed : Members.methodSpecs (typ.rename ρ) = Members.methodSpecs typ := rfl
    have methods : (owner.map (FileNode.rename ρ)).toList.flatMap (Members.methodsOf ws') =
        (owner.toList.flatMap (Members.methodsOf ws)).map (FileNode.rename ρ) := by
      cases owner <;> simp [renames.methodsOf]
    simp only [Members.collectIn_add_one, fields, listed, methods, Members.map_node_rename, Members.embedded_rename,
      List.map_append, List.flatMap_map, List.map_flatMap, List.map_map]
    congr 3
    refine congrArg (List.flatMap · (Members.embedded typ)) (funext fun reference => ?_)
    rw [specs]
    cases specOf reference with
    | none => rfl
    | some spec =>
      simp only [Option.map_some, Members.contains_rename renames.injective, FileNode.node_rename]
      split
      · rfl
      · cases spec.node.typeExpr with
        | none => rfl
        | some inner =>
          have further := ih (some spec) ⟨spec.file, inner⟩ (path ++ [spec])
          rw [List.map_append] at further
          exact further

theorem collect (depth : Nat) (typ : FileNode) :
    Members.collect ws' specOf' depth (typ.rename ρ) =
      (Members.collect ws specOf depth typ).map (Item.rename ρ) := by
  simp only [Members.collect_eq, Members.pointee?_rename]
  cases Members.pointee? typ with
  | none => rfl
  | some target =>
    have own := renames.collectIn specs depth (Members.owner? target) target (Members.owner? target).toList
    have resolved : ((Members.reference? target).map (FileNode.rename ρ)).bind specOf' =
        ((Members.reference? target).bind specOf).map (FileNode.rename ρ) := by
      cases Members.reference? target with
      | none => rfl
      | some reference => exact specs reference
    rw [← Option.toList_map, ← Members.owner?_rename] at own
    simp only [Option.map_some, own, Members.reference?_rename]
    rw [resolved, ← Item.filterMap_rename, List.map_append]
    congr 2
    cases (Members.reference? target).bind specOf with
    | none => rfl
    | some spec =>
      simp only [Option.map_some, FileNode.node_rename]
      cases spec.node.typeExpr with
      | none => rfl
      | some inner => exact renames.collectIn specs depth (some spec) ⟨spec.file, inner⟩ [spec]

omit specs

/-! Resolution -/

theorem nodes : ws'.nodes.Perm (ws.nodes.map (FileNode.rename ρ)) := by
  refine (renames.files.flatMap_right _).trans (.of_eq ?_)
  simp only [Workspace.nodes, List.flatMap_map, List.map_flatMap, List.map_map]
  rfl

theorem memberDepth : ws'.memberDepth = ws.memberDepth := by
  have count := (renames.nodes.filter (·.node.kind == .typeSpec)).length_eq
  rw [List.filter_map, List.length_map] at count
  exact congrArg (· + 2) count

theorem referenceDepth : ws'.referenceDepth = ws.referenceDepth := by
  have count := (renames.nodes.filter (·.node.kind.referenceKind.isSome)).length_eq
  rw [List.filter_map, List.length_map] at count
  exact congrArg (· + 1) count

theorem otherFiles (files : List FileId) (file : FileId) :
    (files.map ρ).filter (· != ρ file) = (files.filter (· != file)).map ρ := by
  simp only [List.filter_map, Function.comp_def, bne, renames.eq_iff]

theorem resolveIn (specs : ∀ place, specOf' (place.rename ρ) = (specOf place).map (FileNode.rename ρ))
    (r : Reference) (target : Declaration) (name : String) :
    (r.rename ρ).resolveIn ws' specOf' (target.rename ρ) name =
      (r.resolveIn ws specOf target name).map (Declaration.rename ρ) := by
  rw [Reference.resolveIn_eq, Reference.resolveIn_eq, Option.map_or]
  congr 1
  · rw [Declaration.type?_rename, renames.memberDepth]
    cases target.type? with
    | none => rfl
    | some typ => exact renames.find specs ws.memberDepth typ name
  · rw [renames.packageDirectory?]
    cases Scope.packageDirectory? ws target with
    | none => rfl
    | some dir =>
      have others := renames.otherFiles (ws.packageFiles dir) r.file
      simp only [Option.bind_some, renames.packageFiles, Reference.rename] at others ⊢
      rw [others, List.findSome?_map, List.map_findSome?]
      exact congrArg (List.findSome? · _) (funext fun file => renames.lookupIn r file false)

omit renames in
/-- Where references are resolved alike, so are the types that they name. -/
theorem specs_of_resolve {resolve resolve' : Reference → Option Declaration}
    (agree : ∀ r, resolve' (r.rename ρ) = (resolve r).map (Declaration.rename ρ)) (place : FileNode) :
    (resolve' ⟨.typeName, (place.rename ρ).file, (place.rename ρ).node⟩).bind Declaration.typeSpec? =
      ((resolve ⟨.typeName, place.file, place.node⟩).bind Declaration.typeSpec?).map (FileNode.rename ρ) := by
  have resolved := agree ⟨.typeName, place.file, place.node⟩
  simp only [Reference.rename] at resolved
  simp only [FileNode.rename, resolved]
  cases resolve ⟨.typeName, place.file, place.node⟩ with
  | none => rfl
  | some d => exact Declaration.typeSpec?_rename d

theorem resolveWithin (depth : Nat) (r : Reference) :
    (r.rename ρ).resolveWithin ws' depth = (r.resolveWithin ws depth).map (Declaration.rename ρ) := by
  induction depth generalizing r with
  | zero => rfl
  | succ depth ih =>
    have specs : ∀ place, Reference.specWithin ws' depth (place.rename ρ) =
        (Reference.specWithin ws depth place).map (FileNode.rename ρ) := specs_of_resolve ih
    by_cases use : r.kind = .importPath
    · simp only [Reference.resolveWithin_add_one, Reference.rename, use, renames.importDirectory?, Option.map_map]
      rfl
    cases named : r.name? with
    | none =>
      simp only [Reference.resolveWithin_add_one, Reference.name?_rename, named, Option.bind_none]
      obtain ⟨kind, file, node⟩ := r
      cases kind with
      | importPath => exact absurd rfl use
      | expr | typeName => rfl
    | some name =>
      have renamed : (r.rename ρ).name? = some name := named
      rw [Reference.resolveWithin_use use named, Reference.resolveWithin_use (r := r.rename ρ) use renamed,
        Reference.qualifier?_rename]
      cases r.qualifier? with
      | none =>
        simp only [Option.map_none, Reference.rename, renames.unqualifiedFiles, List.findSome?_map,
          List.map_findSome?]
        exact congrArg (List.findSome? · _) (funext fun entry => renames.lookupIn r entry.1 entry.2)
      | some qualifier =>
        cases qualifier with
        | other => rfl
        | literal typ =>
          simp only [Option.map_some, Qualifier.rename, renames.memberDepth]
          exact renames.find specs ws.memberDepth typ name
        | reference inner =>
          simp only [Option.map_some, Qualifier.rename, ih]
          cases Reference.resolveWithin ws depth inner with
          | none => rfl
          | some target => exact renames.resolveIn specs r target name

theorem resolve (r : Reference) :
    (r.rename ρ).resolve ws' = (r.resolve ws).map (Declaration.rename ρ) := by
  rw [Reference.resolve, renames.referenceDepth, renames.resolveWithin, Reference.resolve]

theorem members (typ : FileNode) : ws'.members (typ.rename ρ) = (ws.members typ).map (Item.rename ρ) := by
  rw [Workspace.members, renames.memberDepth]
  exact renames.collect (specs_of_resolve renames.resolve) ws.memberDepth typ

theorem candidatesIn (r : Reference) (target : Declaration) :
    (r.rename ρ).candidatesIn ws' (target.rename ρ) = (r.candidatesIn ws target).map (Item.rename ρ) := by
  simp only [Reference.candidatesIn, Declaration.type?_rename, renames.packageDirectory?]
  cases target.type? with
  | some typ => exact renames.members typ
  | none =>
    cases Scope.packageDirectory? ws target with
    | none => rfl
    | some dir =>
      simp only [Option.map_none, renames.packageFiles, ← renames.collectFrom, Reference.rename,
        renames.otherFiles, List.map_map]
      rfl

theorem candidates (r : Reference) :
    (r.rename ρ).candidates ws' = (r.candidates ws).map (Item.rename ρ) := by
  by_cases use : r.kind = .importPath
  · simp only [Reference.candidates, Reference.rename, use, List.map_nil]
  rw [Reference.candidates_use use, Reference.candidates_use (r := r.rename ρ) use, Reference.qualifier?_rename]
  cases r.qualifier? with
  | none =>
    simp only [Option.map_none, ← renames.collectFrom, ← renames.unqualifiedFiles]
    rfl
  | some qualifier =>
    cases qualifier with
    | other => rfl
    | literal typ => exact renames.members typ
    | reference inner =>
      simp only [Option.map_some, Qualifier.rename, renames.resolve]
      cases inner.resolve ws with
      | none => rfl
      | some target => exact renames.candidatesIn r target

/-! Answers -/

theorem targetOf? (d : Declaration) :
    ws'.targetOf? (d.rename ρ) = (ws.targetOf? d).map (Target.rename ρ) := by
  cases d with
  | directory path =>
    simp only [Workspace.targetOf?, Declaration.rename, Option.map_map]
    rfl
  | node place =>
    simp only [Workspace.targetOf?, Declaration.rename, FileNode.rename, renames.file?, Option.map_map]
    rfl

theorem definitionAt? (file : FileId) (offset : Nat) :
    ws'.definitionAt? (ρ file) offset = (ws.definitionAt? file offset).map (Target.rename ρ) := by
  rw [Workspace.definitionAt?, renames.at?, Workspace.definitionAt?]
  cases Reference.at? ws file offset with
  | none => rfl
  | some r =>
    simp only [Option.map_some, Option.bind_some, renames.resolve]
    cases r.resolve ws with
    | none => rfl
    | some d => exact renames.targetOf? d

theorem declarationAt? (file : FileId) (offset : Nat) :
    ws'.declarationAt? (ρ file) offset = (ws.declarationAt? file offset).map (Declaration.rename ρ) := by
  simp only [Workspace.declarationAt?, renames.at?]
  cases Reference.at? ws file offset with
  | some r => exact renames.resolve r
  | none =>
    simp only [Option.map_none, renames.file?, Declaration.ofNode?_rename, Option.map_bind, Function.comp_def]

theorem uses : ws'.uses.Perm (ws.uses.map (Reference.rename ρ)) := by
  refine (renames.files.flatMap_right _).trans (.of_eq ?_)
  simp only [Workspace.uses, List.flatMap_map, List.map_flatMap, List.map_filterMap, Reference.ofNode?_rename]

theorem referencesAt (file : FileId) (offset : Nat) :
    (ws'.referencesAt (ρ file) offset).declaration =
        (ws.referencesAt file offset).declaration.map (Declaration.rename ρ) ∧
      (ws'.referencesAt (ρ file) offset).places.Perm
        ((ws.referencesAt file offset).places.map fun place => (ρ place.1, place.2)) := by
  have declarations := renames.declarationAt? file offset
  cases declared : ws.declarationAt? file offset with
  | none =>
    rw [declared, Option.map_none] at declarations
    simp [Workspace.referencesAt, declared, declarations]
  | some d =>
    rw [declared, Option.map_some] at declarations
    refine ⟨by simp [Workspace.referencesAt, declared, declarations], ?_⟩
    have meant : ∀ r : Reference, ((r.rename ρ).resolve ws' == some (d.rename ρ)) = (r.resolve ws == some d) := by
      intro r
      rw [renames.resolve]
      cases r.resolve ws with
      | none => rfl
      | some e => exact Declaration.rename_beq renames.injective e d
    rw [places_eq declarations, places_eq declared]
    refine ((renames.uses.filter _).map _).trans (.of_eq ?_)
    simp only [List.filter_map, List.map_map, Function.comp_def, meant]
    rfl

end Workspace.Renames

end GoNav
