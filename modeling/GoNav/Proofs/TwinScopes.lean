import GoNav.Proofs.Edits
import GoNav.Proofs.Node.Twins

namespace GoNav

/-- Whether nodes of a kind introduce a name by a token of their own. -/
def Kind.namesItself (kind : Kind) : Bool :=
  kind != .importSpec && kind != .anonFieldDef && !kind.isUse

/-- What a node introduces: its kind tells the sort of thing. -/
def Node.label (n : Node) : Kind × Option String :=
  (n.kind, n.declaredName)

/-! Names of nodes in the same place -/

namespace Node.Twins

variable {n m : Node} (twins : n.Twins Leaf.Agrees m)
include twins

theorem tokenText_eq (plain : n.kind.isUse = false) {kind : Kind} (significant : kind.isTrivia = false) :
    (n.token kind).map Leaf.text = (m.token kind).map Leaf.text :=
  map_eq_of_rel (twins.token significant) fun _ _ same => (same.1.1 (same.1.2.2 ▸ plain)).symm

theorem isSome_token {kind : Kind} (significant : kind.isTrivia = false) :
    (n.token kind).isSome = (m.token kind).isSome := by
  have kinds := map_eq_of_rel (twins.token significant) (f := Leaf.kind) fun _ _ same => same.1.2.1
  rw [← Option.isSome_map, kinds, Option.isSome_map]

theorem label_eq (own : n.kind.namesItself = true) : n.label = m.label := by
  simp only [Kind.namesItself, Bool.and_eq_true, bne_iff_ne, Bool.not_eq_true'] at own
  obtain ⟨⟨notImport, notEmbedded⟩, plain⟩ := own
  have name (k : Node) (same : k.kind = n.kind) : k.declaredName = (k.token .ident).map Leaf.text := by
    rw [← same] at notImport notEmbedded
    rw [declaredName, nameLeaf]
    split
    · exact absurd ‹_› notImport
    · split
      · exact absurd ‹_› notImport
      · exact absurd ‹_› notEmbedded
      · rfl
  rw [label, label, name n rfl, name m twins.kind_eq.symm, twins.tokenText_eq plain rfl, twins.kind_eq]

theorem label_childrenOf {kind : Kind} (own : kind.namesItself = true) :
    (n.childrenOf kind).map label = (m.childrenOf kind).map label := by
  have kinds (c : Node) (member : c ∈ n.childrenOf kind) : c.kind = kind := kind_of_mem_childrenOf member
  have children := (List.forall₂_and_left _ _).mpr ⟨kinds, twins.childrenWhere (· == kind)⟩
  exact map_eq_of_forall₂ children fun c d same => same.2.label_eq (same.1 ▸ own)

theorem label_specs {outer kind : Kind} (own : kind.namesItself = true) :
    ((n.childrenOf outer).flatMap (·.childrenOf kind)).map label =
      ((m.childrenOf outer).flatMap (·.childrenOf kind)).map label := by
  rw [List.map_flatMap, List.map_flatMap]
  exact flatMap_eq_of_forall₂ (twins.childrenWhere _) fun c d same => same.label_childrenOf own

theorem label_localDeclared : (Scope.localDeclared n).map label = (Scope.localDeclared m).map label := by
  rw [Scope.localDeclared, Scope.localDeclared, ← twins.kind_eq]
  generalize n.kind = kind
  split
  · exact twins.label_specs rfl
  · exact twins.label_specs rfl
  · exact twins.label_childrenOf rfl
  · rfl

theorem label_introducedBy : (Scope.introducedBy n).map label = (Scope.introducedBy m).map label := by
  rw [Scope.introducedBy, Scope.introducedBy, ← twins.kind_eq]
  generalize own : n.kind = kind
  split
  · exact twins.label_childrenOf rfl
  · exact twins.label_childrenOf rfl
  · rw [List.map_flatMap, List.map_flatMap]
    exact flatMap_eq_of_forall₂ twins.children fun c d same => same.label_localDeclared
  · exact twins.label_specs rfl
  · have results := rel_bind (twins.childWhere (· == .result)) fun c d same =>
      same.1.childWhere (· == .parameters)
    have parameters := forall₂_toList (twins.childWhere (· == .parameters))
    rw [List.map_flatMap, List.map_flatMap]
    exact flatMap_eq_of_forall₂ (List.rel_append parameters (forall₂_toList results))
      fun c d same => same.1.label_specs rfl
  · have given : n.identifier.isSome = m.identifier.isSome := twins.isSome_token rfl
    rw [given]
    split
    · exact congrArg (· :: []) (twins.label_eq (own ▸ rfl))
    · rfl
  · rfl

end Node.Twins

/-! Names around an element -/

namespace Scope

/-- The nodes that introduce names before a byte offset in what encloses a node. -/
def enclosingAt (n : Node) (place : Nat) : List Node :=
  (n.ancestors.takeWhile (·.kind != .sourceFile)).flatMap fun ancestor =>
    (ancestor.children.takeWhile (·.stop ≤ place)).reverse.flatMap introducedBy

theorem enclosingAt_of_part {n c : Node} {i place : Nat} (here : n.parts[i]? = some (.node c))
    (after : c.start ≤ place) (before : place < c.stop) :
    enclosingAt c place =
      if n.kind = .sourceFile then []
      else ((n.parts.take i).filterMap Element.node?).reverse.flatMap introducedBy ++ enclosingAt n place := by
  have parent := Node.parent_of_mem_children (Node.mem_children_of_parts (List.mem_of_getElem? here))
  rw [enclosingAt, Node.ancestors_of_parent parent, List.takeWhile_cons]
  split
  · rename_i inside
    rw [if_neg (bne_iff_ne.mp inside), List.flatMap_cons, Node.takeWhile_children here after before, enclosingAt]
  · rename_i top
    rw [if_pos (by simpa using top)]
    rfl

/-- Inside twins the same names are around any two places. -/
theorem label_enclosingAt {n m : Node} (twins : n.Twins Leaf.Agrees m) {place other : Nat}
    (after : n.start ≤ place) (before : place < n.stop) (after' : m.start ≤ other) (before' : other < m.stop) :
    (enclosingAt n place).map Node.label = (enclosingAt m other).map Node.label := by
  induction twins with
  | root file file' _ =>
    have none {r : Node} (top : r.parent = none) (place : Nat) : enclosingAt r place = [] := by
      obtain ⟨kind, start, trees, index, above⟩ := r
      subst top
      rfl
    rw [none file.top, none file'.top]
  | @child n m c d i twins here there ih =>
    have bounds := Node.bounds_of_part here
    have bounds' := Node.bounds_of_part there
    have outside := ih (by omega) (by omega) (by omega) (by omega)
    rw [enclosingAt_of_part here after before, enclosingAt_of_part there after' before', twins.kind_eq]
    split
    · rfl
    · have earlier := List.rel_filterMap (fun _ _ same => same) (List.forall₂_take i twins.parts)
      rw [List.map_append, List.map_append, outside, List.map_flatMap, List.map_flatMap]
      congr 1
      exact flatMap_eq_of_forall₂ (List.rel_reverse earlier) fun c d same => same.label_introducedBy

theorem label_enclosing {n m : Node} (twins : n.Twins Leaf.Agrees m) (inhabited : n.start < n.stop)
    (inhabited' : m.start < m.stop) : (enclosing n).map Node.label = (enclosing m).map Node.label :=
  label_enclosingAt twins (Nat.le_refl _) inhabited (Nat.le_refl _) inhabited'

theorem label_topLevelDeclared {r s : Node} (twins : r.Twins Leaf.Agrees s) :
    (topLevelDeclared r).map Node.label = (topLevelDeclared s).map Node.label := by
  have specs (outer inner : Kind) : List.Forall₂ (Node.Twins Leaf.Agrees)
      (r.topLevelSpecs outer inner) (s.topLevelSpecs outer inner) :=
    List.rel_flatMap (twins.childrenWhere _) fun c d same => same.childrenWhere _
  have deep (outer inner kind : Kind) (own : kind.namesItself = true) :
      ((r.topLevelSpecs outer inner).flatMap (·.childrenOf kind)).map Node.label =
        ((s.topLevelSpecs outer inner).flatMap (·.childrenOf kind)).map Node.label := by
    rw [List.map_flatMap, List.map_flatMap]
    exact flatMap_eq_of_forall₂ (specs outer inner) fun c d same => same.label_childrenOf own
  simp only [topLevelDeclared, List.map_append]
  congr 1
  · congr 1
    · congr 1
      · exact deep .constDecl .constSpec .constDef rfl
      · exact deep .varDecl .varSpec .varDef rfl
    · exact twins.label_childrenOf rfl
  · exact twins.label_specs rfl

end Scope

/-! Imports -/

namespace Node

theorem text_of_trees {n : Node} {kind : Kind} {text : String} (trees : n.trees = [.token kind text]) :
    n.text = text := by
  simp [Node.text, trees, Tree.leavesOf, Tree.leaves]

theorem token_of_trees {n : Node} {kind : Kind} {text : String} (trees : n.trees = [.token kind text])
    (wanted : Kind) : (n.token wanted).map Leaf.text = if kind = wanted then some text else none := by
  simp only [token, tokens, elements, elementsIn, trees, List.filterMap_cons, Element.leaf?,
    List.filterMap_nil, List.find?_cons, List.find?_nil]
  by_cases same : kind = wanted
  · simp [same]
  · simp [same, beq_eq_false_iff_ne.mpr same]

namespace Twins

variable {n m : Node} (twins : n.Twins Leaf.Agrees m)
include twins

theorem unquoted_eq (path : n.kind = .importString) : n.unquoted = m.unquoted := by
  obtain ⟨quote, text, trees, isQuote⟩ := twins.quotes_left.1 path
  obtain ⟨quote', text', trees', _⟩ := twins.quotes_right.1 (twins.kind_eq ▸ path)
  have significant : quote.isTrivia = false := by
    rcases isQuote with rfl | rfl <;> rfl
  have texts := twins.tokenText_eq (path ▸ rfl) significant
  rw [token_of_trees trees, token_of_trees trees', if_pos rfl] at texts
  split at texts
  · rw [unquoted, unquoted, text_of_trees trees, text_of_trees trees', Option.some.inj texts]
  · cases texts

theorem importPath_eq : n.importPath = m.importPath :=
  map_eq_of_rel (twins.childWhere (· == .importString)) fun _ _ same => same.1.unquoted_eq (eq_of_beq same.2)

theorem importAlias_eq (plain : n.kind.isUse = false) :
    n.importAlias.map Leaf.text = m.importAlias.map Leaf.text := by
  rw [importAlias, importAlias, Option.map_or, Option.map_or, twins.tokenText_eq plain rfl,
    twins.tokenText_eq plain rfl]

theorem localName_eq (plain : n.kind.isUse = false) : n.localName = m.localName := by
  have through (k : Node) : k.localName =
      (k.importAlias.map Leaf.text).or ((k.importPath.map lastSegment).filter (· != "")) := by
    rw [localName]
    cases k.importAlias <;> rfl
  rw [through, through, twins.importAlias_eq plain, twins.importPath_eq]

end Twins

end Node

/-- Imports in the same place of two files. -/
inductive ImportEntry.Twins : ImportEntry → ImportEntry → Prop
  | spec {n m : Node} : n.Twins Leaf.Agrees m → Twins (.spec n) (.spec m)
  | path {n m : Node} (path : String) : n.Twins Leaf.Agrees m → Twins (.path n path) (.path m path)

namespace ImportTable

/-- The same names for imports in the same places. -/
def Alike (a b : List (String × List ImportEntry)) : Prop :=
  List.Forall₂ (fun left right => left.1 = right.1 ∧ List.Forall₂ ImportEntry.Twins left.2 right.2) a b

theorem Alike.insert {a b : List (String × List ImportEntry)} (alike : Alike a b) (name : String)
    {entry other : ImportEntry} (twins : entry.Twins other) :
    Alike (ImportTable.insert name entry a) (ImportTable.insert name other b) := by
  induction alike with
  | nil => exact .cons ⟨rfl, .cons twins .nil⟩ .nil
  | @cons left right _ _ same rest ih =>
    obtain ⟨key, found⟩ := left
    obtain ⟨key', found'⟩ := right
    obtain ⟨rfl, entries⟩ := same
    rw [ImportTable.insert, ImportTable.insert]
    split
    · exact .cons ⟨rfl, List.rel_append entries (.cons twins .nil)⟩ rest
    · exact .cons ⟨rfl, entries⟩ ih

theorem entryOf?_twins {n m : Node} (twins : n.Twins Leaf.Agrees m) (spec : n.kind = .importSpec) :
    Option.Rel (fun a b => a.1 = b.1 ∧ a.2.Twins b.2) (entryOf? n) (entryOf? m) := by
  have plain : n.kind.isUse = false := spec ▸ rfl
  have given : n.importAlias.isSome = m.importAlias.isSome := by
    rw [← Option.isSome_map, twins.importAlias_eq plain, Option.isSome_map]
  rw [entryOf?, entryOf?, ← twins.localName_eq plain, ← given, ← twins.importPath_eq]
  cases n.localName with
  | none => exact .none
  | some name =>
    cases n.importAlias.isSome with
    | true => exact .some ⟨rfl, .spec twins⟩
    | false =>
      cases n.importPath with
      | none => exact .none
      | some path => exact .some ⟨rfl, .path path twins⟩

/-- Files in which the same imports stand in the same places have the same import names. -/
theorem alike_ofFile {r s : Node} (twins : r.Twins Leaf.Agrees s) :
    Alike (ofFile r).entries (ofFile s).entries := by
  have imports :
      List.Forall₂ (fun n m => n.kind = .importSpec ∧ n.Twins Leaf.Agrees m) r.imports s.imports := by
    refine (List.forall₂_and_left _ _).mpr ⟨fun n member => ?_, ?_⟩
    · obtain ⟨_, _, inside⟩ := List.mem_flatMap.mp member
      exact Node.kind_of_mem_childrenOf inside
    · exact List.rel_flatMap (twins.childrenWhere _) fun c d same => same.childrenWhere _
  have entries := List.rel_filterMap (fun n m same => entryOf?_twins same.2 same.1) imports
  refine List.rel_foldl (P := Alike) ?_ .nil entries
  intro a b alike left right same
  obtain ⟨name, entry⟩ := left
  obtain ⟨name', entry'⟩ := right
  obtain ⟨rfl, twins⟩ := same
  exact alike.insert name twins

section Tables

variable {a b : ImportTable} (alike : Alike a.entries b.entries)
include alike

theorem names_eq : a.names = b.names := by
  rw [names, names, map_eq_of_forall₂ alike fun _ _ same => same.1]

theorem get_twins (name : String) : List.Forall₂ ImportEntry.Twins (a.get name) (b.get name) := by
  rw [get, get]
  unfold Alike at alike
  generalize a.entries = left at alike ⊢
  generalize b.entries = right at alike ⊢
  induction alike with
  | nil => exact .nil
  | @cons left right _ _ same rest ih =>
    rw [List.lookup_cons, List.lookup_cons, same.1]
    cases name == right.1 with
    | true => exact same.2
    | false => exact ih

theorem dotPaths_eq : a.dotPaths = b.dotPaths := by
  rw [dotPaths, dotPaths, List.filterMap_eq_flatMap_toList, List.filterMap_eq_flatMap_toList]
  refine flatMap_eq_of_forall₂ (get_twins alike ".") fun entry other same => ?_
  cases same with
  | spec twins => rw [ImportEntry.node, ImportEntry.node, twins.importPath_eq]
  | path _ twins => rw [ImportEntry.node, ImportEntry.node, twins.importPath_eq]

/-- Import names stand for things of the same sort. -/
theorem resolve_kind {ws ws' : Workspace} (same : Workspace.SamePlaces ws ws') (file : FileId) (name : String) :
    (a.resolve ws file name).map Declaration.kind = (b.resolve ws' file name).map Declaration.kind := by
  rw [same.resolveImport, resolve, resolve, List.map_findSome?, List.map_findSome?]
  refine findSome?_eq_of_forall₂ (get_twins alike name) fun entry other twins => ?_
  cases twins with
  | spec twins => simp only [Function.comp_apply, Option.map_some, Declaration.kind, twins.kind_eq]
  | path => rfl

end Tables

end ImportTable

/-! Items -/

/-- What can be seen of an item: the name, the sort of thing, and that of its declaration. -/
def Item.sketch (item : Item) : NameKind × String × Option NameKind :=
  (item.kind, item.name, item.declaration.map Declaration.kind)

namespace Scope

theorem sketch_itemsOf {nodes others : List Node} (same : nodes.map Node.label = others.map Node.label)
    (file file' : FileId) (filter : ScopeFilter) :
    (itemsOf file filter nodes).map Item.sketch = (itemsOf file' filter others).map Item.sketch := by
  rw [Processor.itemsOf_flatMap, Processor.itemsOf_flatMap file', List.map_flatMap, List.map_flatMap]
  refine flatMap_eq_of_forall₂ (forall₂_of_map_eq same) fun n m labels => ?_
  obtain ⟨kinds, names⟩ := Prod.mk.inj labels
  have accepted : filter.accepts (.node ⟨file, n⟩) = filter.accepts (.node ⟨file', m⟩) := by
    cases filter with
    | all => rfl
    | types => simp only [ScopeFilter.accepts, kinds]
  have item : (Item.ofDeclaration? (.node ⟨file, n⟩)).map Item.sketch =
      (Item.ofDeclaration? (.node ⟨file', m⟩)).map Item.sketch := by
    simp only [Item.ofDeclaration?, Declaration.name?, names, Option.map_map]
    congr 1
    funext name
    simp only [Function.comp_apply, Item.sketch, Option.map_some, Declaration.kind, kinds]
  have through (file : FileId) (n : Node) : (itemsOf file filter [n]).map Item.sketch =
      if filter.accepts (.node ⟨file, n⟩) then ((Item.ofDeclaration? (.node ⟨file, n⟩)).map Item.sketch).toList
      else [] := by
    rw [itemsOf, List.map_cons, List.map_nil, List.filter_cons]
    split
    · cases found : Item.ofDeclaration? (.node ⟨file, n⟩) <;> simp [found]
    · rfl
  rw [through, through, accepted, item]

end Scope

/-! Workspaces -/

namespace Workspace

/-- The second workspace is the first, in which names in use may be others. -/
structure Respells (ws ws' : Workspace) : Prop extends SamePlaces ws ws' where
  twins : ∀ id, Option.Rel (fun f f' : SourceFile => f.root.Twins Leaf.Agrees f'.root ∧ f.package = f'.package)
    (ws.file? id) (ws'.file? id)

namespace Respells

variable {ws ws' : Workspace} (respells : Respells ws ws')
include respells

theorem package? (id : FileId) : ws'.package? id = ws.package? id := by
  have related := respells.twins id
  rw [Workspace.package?, Workspace.package?]
  generalize ws.file? id = first at related ⊢
  generalize ws'.file? id = second at related ⊢
  cases related with
  | some same => exact same.2.symm
  | none => rfl

theorem packageFiles (dir : Path) : ws'.packageFiles dir = ws.packageFiles dir := by
  simp only [Workspace.packageFiles, packageOfDirectory?, respells.filesIn, respells.package?]

theorem unqualifiedFiles (file : FileId) :
    Scope.unqualifiedFiles ws' file = Scope.unqualifiedFiles ws file := by
  simp only [Scope.unqualifiedFiles, respells.package?, respells.directoryOf?, funext respells.filesIn,
    respells.isBuiltinFile, respells.builtinFile?]

theorem topLevelOf (file : FileId) (filter : ScopeFilter) :
    (Scope.topLevelOf ws file filter).map Item.sketch = (Scope.topLevelOf ws' file filter).map Item.sketch := by
  have related := respells.twins file
  rw [Scope.topLevelOf, Scope.topLevelOf]
  generalize ws.file? file = first at related ⊢
  generalize ws'.file? file = second at related ⊢
  cases related with
  | some same => exact Scope.sketch_itemsOf (Scope.label_topLevelDeclared same.1) ..
  | none => rfl

theorem dotImported {a b : ImportTable} (paths : a.dotPaths = b.dotPaths) (file : FileId)
    (filter : ScopeFilter) :
    (Scope.dotImported ws file a filter).map Item.sketch =
      (Scope.dotImported ws' file b filter).map Item.sketch := by
  simp only [Scope.dotImported, List.map_flatMap, funext (respells.importDirectory? file), paths,
    respells.packageFiles, respells.topLevelOf]

theorem importNames {a b : ImportTable} (alike : ImportTable.Alike a.entries b.entries) (file : FileId) :
    (Scope.importNames ws file a).map Item.sketch = (Scope.importNames ws' file b).map Item.sketch := by
  simp only [Scope.importNames, List.map_map, ImportTable.names_eq alike]
  refine List.map_congr_left fun name _ => ?_
  simp only [Function.comp_apply, Item.sketch, ImportTable.resolve_kind alike respells.toSamePlaces]

/-- The names of a file that are visible at twins are the same, of things of the same sorts. -/
theorem ofFile {home : FileId} {n m : Node} (twins : n.Twins Leaf.Agrees m) (inhabited : n.start < n.stop)
    (inhabited' : m.start < m.stop) (file : FileId) (isLocal : Bool) (filter : ScopeFilter) :
    (Scope.ofFile ws home n file isLocal filter).map Item.sketch =
      (Scope.ofFile ws' home m file isLocal filter).map Item.sketch := by
  have related := respells.twins file
  rw [Scope.ofFile, Scope.ofFile]
  generalize ws.file? file = first at related ⊢
  generalize ws'.file? file = second at related ⊢
  cases related with
  | none => rfl
  | @some f f' same =>
    have around := Scope.sketch_itemsOf (Scope.label_enclosing twins inhabited inhabited') file file filter
    have top := Scope.sketch_itemsOf (Scope.label_topLevelDeclared same.1) file file filter
    have alike := ImportTable.alike_ofFile same.1
    have names := respells.importNames alike file
    have dotted := respells.dotImported (ImportTable.dotPaths_eq alike) file filter
    have enclosed : (if isLocal && file == home then Scope.walkUp file n filter else []).map Item.sketch =
        (if isLocal && file == home then Scope.walkUp file m filter else []).map Item.sketch := by
      split
      · exact around
      · rfl
    have imported : (if isLocal then Scope.importNames ws file (.ofFile f.root) ++
          Scope.dotImported ws file (.ofFile f.root) filter else []).map Item.sketch =
        (if isLocal then Scope.importNames ws' file (.ofFile f'.root) ++
          Scope.dotImported ws' file (.ofFile f'.root) filter else []).map Item.sketch := by
      split
      · rw [List.map_append, List.map_append, names, dotted]
      · rfl
    simp only [List.map_append]
    rw [enclosed, imported]
    exact congrArg (fun items => _ ++ items ++ _) top

end Respells

end Workspace

end GoNav
