import GoNav.ImportTable
import GoNav.Proofs.Declared
import Mathlib.Data.List.Induction
import Mathlib.Data.List.Nodup
import Mathlib.Data.List.Perm.Basic

namespace GoNav

namespace Node

/-! The imports of a file -/

/-- Whether an import has a place in the table of its file: it has a name there and, unless it is given that
name, a path. -/
def isListed (spec : Node) : Bool :=
  spec.localName.isSome && (spec.importAlias.isSome || spec.importPath.isSome)

/-- Whether an import is given no name, and is called `.` after the end of its path. -/
def isDotNamed (spec : Node) : Bool :=
  spec.importAlias.isNone && spec.importPath.map lastSegment == some "."

theorem nodup_paths_childrenOf (n : Node) (kind : Kind) : ((n.childrenOf kind).map path).Nodup := by
  have ordered := (pairwise_index_elementsIn n 0 n.start n.trees).filter (·.kind == kind)
  refine List.pairwise_map.mpr (ordered.imp_of_mem fun {a b} left right earlier same => ?_)
  rw [path_of_parent (parent_of_mem_children (List.mem_filter.mp left).1),
    path_of_parent (parent_of_mem_children (List.mem_filter.mp right).1)] at same
  exact Nat.ne_of_lt earlier (List.cons.inj same).1

theorem nodup_paths_topLevelSpecs (file : Node) (declaration spec : Kind) :
    ((file.topLevelSpecs declaration spec).map path).Nodup := by
  rw [topLevelSpecs, List.map_flatMap, List.nodup_flatMap]
  refine ⟨fun outer _ => nodup_paths_childrenOf outer spec, ?_⟩
  -- The place of a specification goes on from that of its declaration.
  refine (List.pairwise_map.mp (nodup_paths_childrenOf file declaration)).imp fun {a b} different => ?_
  intro place inA inB
  obtain ⟨s, left, rfl⟩ := List.mem_map.mp inA
  obtain ⟨t, right, same⟩ := List.mem_map.mp inB
  rw [path_of_parent (parent_of_mem_children (List.mem_filter.mp left).1),
    path_of_parent (parent_of_mem_children (List.mem_filter.mp right).1)] at same
  exact different (List.cons.inj same).2.symm

end Node

/-- Whether an entry says of its import what the table has to know: that it is given a name, or what its path
is. -/
def ImportEntry.Tells : ImportEntry → Prop
  | .spec node => node.importAlias.isSome
  | .path node quoted => node.importAlias = none ∧ node.importPath = some quoted

namespace ImportTable

/-! Adding imports to a table -/

section Insert

variable {name key : String} {entry : ImportEntry} {table : List (String × List ImportEntry)}

theorem keys_insert :
    (insert name entry table).map Prod.fst =
      if name ∈ table.map Prod.fst then table.map Prod.fst else table.map Prod.fst ++ [name] := by
  induction table with
  | nil => rfl
  | cons row rest ih =>
    rw [insert]
    by_cases same : row.1 = name
    · simp [same]
    · have other : ¬ name = row.1 := fun equal => same equal.symm
      simp only [same, if_false, List.map_cons, ih, List.mem_cons, other, false_or]
      split <;> rfl

theorem lookup_insert :
    ((insert name entry table).lookup key).getD [] =
      (table.lookup key).getD [] ++ if key = name then [entry] else [] := by
  induction table with
  | nil =>
    by_cases same : key = name
    · simp [insert, same]
    · simp [insert, List.lookup_cons, same, beq_false_of_ne same]
  | cons row rest ih =>
    obtain ⟨first, entries⟩ := row
    rw [insert]
    by_cases here : first = name
    · by_cases same : key = name
      · simp [here, same]
      · simp [List.lookup_cons, here, same, beq_false_of_ne same]
    · rw [if_neg here]
      by_cases own : key = first
      · simp [own, here]
      · simpa [List.lookup_cons, beq_false_of_ne own] using ih

theorem flatMap_insert_perm :
    ((insert name entry table).flatMap Prod.snd).Perm (entry :: table.flatMap Prod.snd) := by
  induction table with
  | nil => exact .refl _
  | cons row rest ih =>
    rw [insert]
    split
    · simp only [List.flatMap_cons, List.append_assoc, List.singleton_append]
      exact List.perm_middle
    · simp only [List.flatMap_cons]
      exact (ih.append_left row.2).trans List.perm_middle

end Insert

/-! Tables of many imports -/

section Collect

/-- The rows for imports under their names, added one after the other. -/
def collect (pairs : List (String × ImportEntry)) : List (String × List ImportEntry) :=
  pairs.foldl (fun table pair => insert pair.1 pair.2 table) []

variable (pairs : List (String × ImportEntry))

theorem collect_concat (pair : String × ImportEntry) :
    collect (pairs ++ [pair]) = insert pair.1 pair.2 (collect pairs) := by
  simp [collect]

/-- The names of the rows are those of the imports, each where it comes first. -/
theorem keys_collect : (collect pairs).map Prod.fst = (pairs.map Prod.fst).eraseDups := by
  induction pairs using List.reverseRecOn with
  | nil => rfl
  | append_singleton pairs pair ih =>
    rw [collect_concat, keys_insert, ih, List.map_append, List.map_singleton, List.eraseDups_append]
    by_cases known : pair.1 ∈ pairs.map Prod.fst
    · simp [known, List.removeAll]
    · simp [known, List.removeAll, List.eraseDups_cons]

theorem nodup_keys_collect : ((collect pairs).map Prod.fst).Nodup := by
  induction pairs using List.reverseRecOn with
  | nil => exact List.nodup_nil
  | append_singleton pairs pair ih =>
    rw [collect_concat, keys_insert]
    split
    · exact ih
    · rename_i fresh
      exact List.concat_eq_append ▸ ih.concat fresh

/-- Under a name stand the imports that have it, in their order. -/
theorem lookup_collect (key : String) :
    ((collect pairs).lookup key).getD [] = (pairs.filter (·.1 == key)).map Prod.snd := by
  induction pairs using List.reverseRecOn with
  | nil => rfl
  | append_singleton pairs pair ih =>
    rw [collect_concat, lookup_insert, ih, List.filter_append, List.map_append]
    by_cases same : pair.1 = key
    · simp [same]
    · simp [same, Ne.symm same]

theorem flatMap_collect_perm : ((collect pairs).flatMap Prod.snd).Perm (pairs.map Prod.snd) := by
  induction pairs using List.reverseRecOn with
  | nil => exact .refl _
  | append_singleton pairs pair ih =>
    rw [collect_concat, List.map_append]
    exact flatMap_insert_perm.trans ((ih.cons pair.2).trans (List.perm_append_singleton ..).symm)

end Collect

theorem entries_ofFile (file : Node) : (ofFile file).entries = collect (file.imports.filterMap entryOf?) :=
  rfl

theorem get_ofFile (file : Node) (name : String) :
    (ofFile file).get name = ((file.imports.filterMap entryOf?).filter (·.1 == name)).map Prod.snd :=
  lookup_collect ..

/-! Tables and the imports of their files -/

theorem entryOf?_of_isListed {spec : Node} (listed : spec.isListed = true) :
    ∃ name entry, spec.localName = some name ∧ entryOf? spec = some (name, entry) ∧ entry.node = spec ∧
      entry.Tells := by
  rw [Node.isListed, Bool.and_eq_true, Option.isSome_iff_exists] at listed
  obtain ⟨⟨name, named⟩, known⟩ := listed
  cases given : spec.importAlias with
  | some l =>
    refine ⟨name, .spec spec, named, by simp [entryOf?, named, given], rfl, ?_⟩
    rw [ImportEntry.Tells, given, Option.isSome_some]
  | none =>
    rw [given, Option.isSome_none, Bool.false_or, Option.isSome_iff_exists] at known
    obtain ⟨path, quoted⟩ := known
    exact ⟨name, .path spec path, named, by simp [entryOf?, named, given, quoted], rfl, given, quoted⟩

theorem entryOf?_of_not_isListed {spec : Node} (unlisted : spec.isListed = false) : entryOf? spec = none := by
  unfold entryOf?
  split
  · rfl
  · rename_i name named
    rw [Node.isListed, named, Option.isSome_some, Bool.true_and, Bool.or_eq_false_iff] at unlisted
    simpa [unlisted.1] using unlisted.2

section Specs

variable (specs : List Node)

theorem names_filterMap :
    (specs.filterMap entryOf?).map Prod.fst = (specs.filter Node.isListed).filterMap Node.localName := by
  induction specs with
  | nil => rfl
  | cons spec rest ih =>
    cases listed : spec.isListed with
    | true =>
      obtain ⟨name, entry, named, made, _⟩ := entryOf?_of_isListed listed
      simp [listed, named, made, ih]
    | false => simp [listed, entryOf?_of_not_isListed listed, ih]

theorem nodes_filterMap :
    (specs.filterMap entryOf?).map (·.2.node) = specs.filter Node.isListed := by
  induction specs with
  | nil => rfl
  | cons spec rest ih =>
    cases listed : spec.isListed with
    | true =>
      obtain ⟨name, entry, _, made, node, _⟩ := entryOf?_of_isListed listed
      simp [listed, made, node, ih]
    | false => simp [listed, entryOf?_of_not_isListed listed, ih]

theorem nodes_filter_filterMap (name : String) :
    ((specs.filterMap entryOf?).filter (·.1 == name)).map (·.2.node) =
      specs.filter fun spec => spec.isListed && spec.localName == some name := by
  induction specs with
  | nil => rfl
  | cons spec rest ih =>
    cases listed : spec.isListed with
    | true =>
      obtain ⟨own, entry, named, made, node, _⟩ := entryOf?_of_isListed listed
      by_cases same : own = name
      · simp [listed, named, made, node, same, ih]
      · simp [listed, named, made, same, ih]
    | false => simp [listed, entryOf?_of_not_isListed listed, ih]

end Specs

/-- A table as the imports of a file give it. -/
structure Lists (table : ImportTable) (specs : List Node) : Prop where
  /-- Each name stands where it comes first. -/
  keys : table.entries.map Prod.fst = ((specs.filter Node.isListed).filterMap Node.localName).eraseDups
  /-- Under a name stand the imports that have it, in the order of the file, and nothing else. -/
  rows : ∀ row ∈ table.entries,
    row.2.map ImportEntry.node = specs.filter fun spec => spec.isListed && spec.localName == some row.1
  tells : ∀ row ∈ table.entries, ∀ entry ∈ row.2, entry.Tells
  /-- An import has its place under its name, and only one in the whole table. -/
  once : ∀ spec ∈ specs, spec.isListed = true →
    (∃ row ∈ table.entries, spec.localName = some row.1 ∧ spec ∈ row.2.map ImportEntry.node) ∧
      (table.entries.flatMap Prod.snd).countP (·.node == spec) = 1

theorem lists_ofFile (file : Node) : (ofFile file).Lists file.imports := by
  have found {row : String × List ImportEntry} (member : row ∈ (ofFile file).entries) :
      row.2 = ((file.imports.filterMap entryOf?).filter (·.1 == row.1)).map Prod.snd := by
    rw [← get_ofFile, get, entries_ofFile, lookup_of_mem (nodup_keys_collect _) member, Option.getD_some]
  have keys : (ofFile file).entries.map Prod.fst =
      ((file.imports.filter Node.isListed).filterMap Node.localName).eraseDups := by
    rw [entries_ofFile, keys_collect, names_filterMap]
  have rows : ∀ row ∈ (ofFile file).entries, row.2.map ImportEntry.node =
      file.imports.filter fun spec => spec.isListed && spec.localName == some row.1 := by
    intro row member
    rw [found member, List.map_map]
    exact nodes_filter_filterMap file.imports row.1
  refine ⟨keys, rows, ?tells, ?once⟩
  case tells =>
    intro row member entry among
    rw [found member] at among
    obtain ⟨pair, kept, rfl⟩ := List.mem_map.mp among
    obtain ⟨spec, _, made⟩ := List.mem_filterMap.mp (List.mem_filter.mp kept).1
    cases listed : spec.isListed with
    | true =>
      obtain ⟨name, entry, _, again, _, tells⟩ := entryOf?_of_isListed listed
      cases made.symm.trans again
      exact tells
    | false => cases (entryOf?_of_not_isListed listed).symm.trans made
  case once =>
    intro spec imported listed
    have among : spec ∈ file.imports.filter Node.isListed := List.mem_filter.mpr ⟨imported, listed⟩
    constructor
    · obtain ⟨name, _, named, _⟩ := entryOf?_of_isListed listed
      have key : name ∈ (ofFile file).entries.map Prod.fst := by
        rw [keys, List.mem_eraseDups]
        exact List.mem_filterMap.mpr ⟨spec, among, named⟩
      obtain ⟨row, member, rfl⟩ := List.mem_map.mp key
      refine ⟨row, member, named, ?_⟩
      rw [rows row member]
      exact List.mem_filter.mpr ⟨imported, by simp [listed, named]⟩
    · have distinct : ((file.imports.filter Node.isListed).map Node.path).Nodup :=
        (Node.nodup_paths_topLevelSpecs file .importDecl .importSpec).sublist (List.filter_sublist.map _)
      calc ((ofFile file).entries.flatMap Prod.snd).countP (·.node == spec)
        _ = ((file.imports.filterMap entryOf?).map Prod.snd).countP (·.node == spec) :=
          (flatMap_collect_perm _).countP_eq _
        _ = (((file.imports.filterMap entryOf?).map (·.2.node)).map Node.path).count spec.path := by
          rw [List.count, List.countP_map, List.countP_map, List.countP_map]
          rfl
        _ = 1 := by
          rw [nodes_filterMap]
          exact List.count_eq_one_of_mem distinct (List.mem_map_of_mem among)

/-! Imports that bring in names without a qualifier -/

theorem importPaths_get (file : Node) (name : String) :
    ((ofFile file).get name).filterMap (·.node.importPath) =
      (file.imports.filter fun spec => spec.isListed && spec.localName == some name).filterMap Node.importPath := by
  rw [get_ofFile, ← nodes_filter_filterMap, List.filterMap_map, List.filterMap_map]
  rfl

/-- Of the names that imports are given, the dot is the one that is no identifier. -/
theorem text_eq_dot_iff {f : SourceFile} {spec : Node} {l : Leaf} (within : spec ∈ f.root.descendants)
    (given : spec.importAlias = some l) : l.text = "." ↔ l.kind = .dot := by
  rcases Option.or_eq_some_iff.mp given with ident | ⟨_, dot⟩
  · obtain ⟨token, kind⟩ := Node.token_spec ident
    obtain ⟨t, scanned, same, text⟩ := SourceFile.exists_token (Node.mem_leaves.mpr ⟨spec, within, token⟩)
    obtain ⟨c, rest, written, other⟩ := Token.head_of_ident scanned (same.trans kind)
    refine iff_of_false (fun dot => other ?_) (by simp [kind])
    have chars := congrArg String.toList (written.symm.trans (text.trans dot))
    rw [String.toList_ofList] at chars
    exact (List.cons.inj chars).1
  · obtain ⟨token, kind⟩ := Node.token_spec dot
    obtain ⟨t, scanned, same, text⟩ := SourceFile.exists_token (Node.mem_leaves.mpr ⟨spec, within, token⟩)
    rw [← text, Token.text_of_dot scanned (same.trans kind), kind]
    simp

theorem isListed_dot {f : SourceFile} {spec : Node} (within : spec ∈ f.root.descendants) :
    (spec.isListed && spec.localName == some ".") = (spec.isDotImport || spec.isDotNamed) := by
  unfold Node.isListed Node.localName Node.isDotImport Node.isDotNamed
  cases given : spec.importAlias with
  | some l =>
    have dot := text_eq_dot_iff within given
    simp [dot]
  | none =>
    cases spec.importPath with
    | none => simp
    | some path => by_cases empty : Node.lastSegment path = "" <;> simp [empty, Option.filter]

theorem dotPaths_ofFile (f : SourceFile) :
    (ofFile f.root).dotPaths =
      (f.root.imports.filter fun spec => spec.isDotImport || spec.isDotNamed).filterMap Node.importPath := by
  rw [dotPaths, importPaths_get]
  congr 1
  exact List.filter_congr fun spec imported =>
    isListed_dot (Scope.topLevelSpecs_near imported f.root rfl (Node.self_mem_descendants _))

theorem filterMap_importPath_eq_iff (specs : List Node) :
    (specs.filter fun spec => spec.isDotImport || spec.isDotNamed).filterMap Node.importPath =
        (specs.filter Node.isDotImport).filterMap Node.importPath ↔
      ∀ spec ∈ specs, spec.isDotNamed = false := by
  constructor
  · intro same spec member
    -- An import that is called `.` after its path has a path, which then has no counterpart on the right.
    have lengths := congrArg List.length same
    rw [List.length_filterMap_eq_countP, List.length_filterMap_eq_countP, List.countP_filter, List.countP_filter,
      List.countP_eq_length_filter, List.countP_eq_length_filter] at lengths
    have narrowed : specs.filter (fun s => s.importPath.isSome && s.isDotImport) =
        (specs.filter fun s => s.importPath.isSome && (s.isDotImport || s.isDotNamed)).filter Node.isDotImport := by
      rw [List.filter_filter]
      exact List.filter_congr fun s _ => by cases s.isDotImport <;> simp
    have all := List.length_filter_eq_length_iff.mp (narrowed ▸ lengths.symm)
    by_contra dotNamed
    rw [Bool.not_eq_false] at dotNamed
    have facts := dotNamed
    rw [Node.isDotNamed, Bool.and_eq_true, Option.isNone_iff_eq_none, beq_iff_eq, Option.map_eq_some_iff] at facts
    obtain ⟨given, path, quoted, _⟩ := facts
    have dotted := all spec (List.mem_filter.mpr ⟨member, by simp [quoted, dotNamed]⟩)
    simp [Node.isDotImport, given] at dotted
  · intro none
    congr 1
    exact List.filter_congr fun spec member => by rw [none spec member, Bool.or_false]

/-- The table of a file is made of all its imports that have a name and of nothing else, and the names that a
program can use are those of its rows other than `.` and `_`. The packages whose names are visible without a
qualifier are those of the imports that are given a dot, and of the imports that are given no name and whose
path ends in a segment `.`; so they are those of the first alone exactly if there is no import of the second
kind. -/
theorem ofFile_lists (f : SourceFile) :
    (ofFile f.root).Lists f.root.imports ∧
      (ofFile f.root).names =
        (((f.root.imports.filter Node.isListed).filterMap Node.localName).eraseDups.filter
          fun name => name != "." && name != "_") ∧
      (ofFile f.root).dotPaths =
        (f.root.imports.filter fun spec => spec.isDotImport || spec.isDotNamed).filterMap Node.importPath ∧
      ((ofFile f.root).dotPaths = (f.root.imports.filter Node.isDotImport).filterMap Node.importPath ↔
        ∀ spec ∈ f.root.imports, spec.isDotNamed = false) := by
  have lists := lists_ofFile f.root
  refine ⟨lists, by rw [names, lists.keys], dotPaths_ofFile f, ?_⟩
  rw [dotPaths_ofFile, filterMap_importPath_eq_iff]

/-- A file that imports its own directory, which is written `.`, and the names of another package. -/
def dotted : SourceFile :=
  .ofText ⟨"/p/a.go"⟩ "package p\nimport \".\"\nimport . \"math\"\n"

/-- The import of the directory is given no dot, and yet its names become visible without a qualifier. -/
theorem dotPaths_beyond_dots :
    (ofFile dotted.root).dotPaths = [".", "math"] ∧
      (dotted.root.imports.filter Node.isDotImport).filterMap Node.importPath = ["math"] := by
  decide +kernel

end ImportTable

end GoNav
