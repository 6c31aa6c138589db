import GoNav.Proofs.Occurrence

namespace GoNav

namespace Item

theorem find_append (name : String) (left right : List Item) :
    find name (left ++ right) = (find name left).or (find name right) :=
  List.findSome?_append

theorem find_flatMap {α : Type} (name : String) (items : α → List Item) (as : List α) :
    find name (as.flatMap items) = as.findSome? fun a => find name (items a) := by
  induction as with
  | nil => rfl
  | cons a rest ih =>
    rw [List.flatMap_cons, find_append, ih, List.findSome?_cons]
    cases find name (items a) <;> rfl

/-- The first item of a name that stands for something tells what the name stands for. -/
theorem find_eq_find? (name : String) (items : List Item) :
    find name items =
      (items.find? fun item => item.name = name && item.declaration.isSome).bind Item.declaration := by
  induction items with
  | nil => rfl
  | cons item rest ih =>
    rw [find, List.findSome?_cons, ← find, List.find?_cons, ih]
    by_cases same : item.name = name
    · cases declared : item.declaration <;> simp [same, declared]
    · simp [same]

theorem find_eq_none_iff (name : String) (items : List Item) :
    find name items = none ↔ ∀ item ∈ items, item.name = name → item.declaration = none := by
  rw [find, List.findSome?_eq_none_iff]
  refine forall₂_congr fun item _ => ?_
  by_cases same : item.name = name <;> simp [same]

end Item

theorem Declaration.type?_of_isPackage {d : Declaration} (package : d.isPackage = true) : d.type? = none := by
  cases d with
  | directory path => rfl
  | node place =>
    have kind : place.node.kind = .importSpec := eq_of_beq package
    simp [type?, Node.declaredType, kind]

namespace Workspace

variable {ws : Workspace}

theorem mem_nodes {place : FileNode} (held : ws.Holds place) : place ∈ ws.nodes := by
  obtain ⟨f, found, member⟩ := held
  exact List.mem_flatMap.mpr ⟨(place.file, f), mem_files_of_file? found, List.mem_map_of_mem member⟩

theorem referenceDepth_eq {place : FileNode} (held : ws.Holds place)
    (refers : place.node.kind.referenceKind.isSome = true) : ∃ depth, ws.referenceDepth = depth + 2 := by
  have among : place ∈ ws.nodes.filter (·.node.kind.referenceKind.isSome) :=
    List.mem_filter.mpr ⟨mem_nodes held, refers⟩
  have positive := List.length_pos_of_mem among
  exact ⟨(ws.nodes.filter (·.node.kind.referenceKind.isSome)).length - 1, by rw [referenceDepth]; omega⟩

end Workspace

namespace Reference

variable {ws : Workspace} {r : Reference} {name : String}

/-- Whether a reference is looked for among names alone: it has no qualifier, or its qualifier is a
reference to a package. -/
def looksForName (ws : Workspace) (r : Reference) : Bool :=
  match r.qualifier? with
  | none => true
  | some (.reference inner) => (inner.resolve ws).any Declaration.isPackage
  | some _ => false

theorem find_collectFrom (named : r.name? = some name) (files : List (FileId × Bool)) :
    Item.find name (r.collectFrom ws files) =
      files.findSome? fun (file, isLocal) => r.lookupIn ws file isLocal := by
  rw [collectFrom_eq_flatMap, Item.find_flatMap]
  congr 1
  funext entry
  simp only [lookupIn_eq_find, named, Option.bind_some]

/-- Which names could stand in the place of a reference, by what stands before its dot. -/
theorem candidates_use (use : r.kind ≠ .importPath) :
    r.candidates ws =
      match r.qualifier? with
      | none => r.collectFrom ws (Scope.unqualifiedFiles ws r.file)
      | some (.reference inner) => ((inner.resolve ws).map (r.candidatesIn ws)).getD []
      | some (.literal typ) => ws.members typ
      | some .other => [] := by
  rw [candidates]
  split
  · rename_i path
    exact absurd path use
  · rfl

theorem resolveIn_package {specOf : FileNode → Option FileNode} {target : Declaration}
    (named : r.name? = some name) (package : target.isPackage = true) :
    r.resolveIn ws specOf target name = Item.find name (r.candidatesIn ws target) := by
  rw [resolveIn_eq, candidatesIn, Declaration.type?_of_isPackage package, Option.bind_none, Option.none_or]
  cases directory : Scope.packageDirectory? ws target with
  | none => rfl
  | some dir => simp only [Option.bind_some, find_collectFrom named, List.findSome?_map]; rfl

/-- Only a reference without a qualifier can stand for a package, and what such a reference stands for
is found in one step. -/
theorem resolveWithin_package {depth more : Nat} {d : Declaration} (use : r.kind ≠ .importPath)
    (held : ws.Holds ⟨r.file, r.node⟩) (found : resolveWithin ws (depth + 1) r = some d)
    (package : d.isPackage = true) : resolveWithin ws (more + 1) r = some d := by
  obtain ⟨name, named⟩ := exists_name use found
  cases qualified : r.qualifier? with
  | none =>
    rw [resolveWithin_use use named, qualified] at found ⊢
    exact found
  | some q =>
    have defines := qualified_defines (faithful_resolveWithin ws depth) held qualified named found
    rw [defines.not_package] at package
    cases package

/-- A reference that is looked for among names stands for what the first candidate of its name does. -/
theorem resolve_eq_find (held : ws.Holds ⟨r.file, r.node⟩) (isReference : ofNode? r.file r.node = some r)
    (use : r.kind ≠ .importPath) (named : r.name? = some name) (way : r.looksForName ws = true) :
    r.resolve ws = Item.find name (r.candidates ws) := by
  have refers : r.node.kind.referenceKind.isSome = true := by
    rw [(ofNode?_spec isReference).2.2]
    rfl
  obtain ⟨depth, deep⟩ := Workspace.referenceDepth_eq held refers
  rw [resolve, deep, resolveWithin_use use named, candidates_use use]
  cases qualified : r.qualifier? with
  | none => exact (find_collectFrom named _).symm
  | some q =>
    simp only [looksForName, qualified] at way
    rcases (qualifier?_cases qualified).2 with rfl | ⟨n, near, rfl | rfl⟩
    · cases way
    · obtain ⟨target, resolved, package⟩ := (Option.any_eq_true _ _).mp way
      -- The qualifier is resolved one step deeper than on its own; a package is found there all the same.
      have inStep : resolveWithin ws (depth + 1) ⟨r.kind, r.file, n⟩ = some target := by
        rw [resolve, deep] at resolved
        exact resolveWithin_package use (held.near near) resolved package
      simp only [inStep, resolved, Option.bind_some, Option.map_some, Option.getD_some]
      exact resolveIn_package named package
    · cases way

/-- Looking a name up and listing what it could be agree. A reference in an expression or a type that
has no qualifier, or whose qualifier is a reference to a package, stands for what the first candidate
of its name with a declaration does, and for nothing exactly where no candidate of its name has one. -/
theorem resolve_eq_first_candidate {ws : Workspace} {file : FileId} {n : Node} {r : Reference} {name : String}
    (held : ws.Holds ⟨file, n⟩) (isReference : ofNode? file n = some r) (use : r.kind ≠ .importPath)
    (named : r.name? = some name) (way : r.looksForName ws = true) :
    r.resolve ws =
        ((r.candidates ws).find? fun item => item.name = name && item.declaration.isSome).bind
          Item.declaration ∧
      (r.resolve ws = none ↔ ¬ ∃ item ∈ r.candidates ws, item.name = name ∧ item.declaration.isSome = true) := by
  obtain ⟨kind, _, rfl⟩ := Option.map_eq_some_iff.mp isReference
  have same := resolve_eq_find held isReference use named way
  refine ⟨same.trans (Item.find_eq_find? name _), ?_⟩
  rw [same, Item.find_eq_none_iff]
  simp

/-- A package, and a file that imports it and uses one of its names. -/
def importing : Workspace :=
  let package := ({ config := { gopath := [⟨"/go"⟩] } } : Workspace).setText ⟨"/go/src/q/q.go"⟩
    "package q\nvar X = 1\n"
  (package.2.setText ⟨"/p/a.go"⟩ "package p\nimport \"q\"\nvar y = q.X\n").2

theorem resolve_eq_first_candidate_importing :
    ∃ r, at? importing ⟨1⟩ 32 = some r ∧ r.kind ≠ .importPath ∧ r.name? = some "X" ∧
      r.looksForName importing = true ∧ (r.resolve importing).isSome = true ∧
      r.resolve importing =
        ((r.candidates importing).find? fun item => item.name = "X" && item.declaration.isSome).bind
          Item.declaration := by
  have facts : ((at? importing ⟨1⟩ 32).any fun r => r.kind != .importPath && r.name? == some "X" &&
      r.looksForName importing && (r.resolve importing).isSome) = true := by decide +kernel
  obtain ⟨r, found, tests⟩ := (Option.any_eq_true _ _).mp facts
  simp only [Bool.and_eq_true, bne_iff_ne, beq_iff_eq] at tests
  obtain ⟨⟨⟨use, named⟩, way⟩, resolves⟩ := tests
  obtain ⟨held, isReference⟩ := at?_spec found
  exact ⟨r, found, use, named, way, resolves,
    (resolve_eq_first_candidate held isReference use named way).1⟩

end Reference

end GoNav
