import GoNav.Reference
import Mathlib.Data.List.Basic

namespace GoNav

namespace Flow

variable {σ α β : Type}

theorem andThen_assoc (flow : Flow σ) (f g : σ → Flow σ) :
    (flow.andThen f).andThen g = flow.andThen fun s => (f s).andThen g := by
  cases flow <;> rfl

theorem andThen_next (flow : Flow σ) : flow.andThen .next = flow := by
  cases flow <;> rfl

theorem each_append (visit : α → σ → Flow σ) (as bs : List α) (s : σ) :
    each visit (as ++ bs) s = (each visit as s).andThen (each visit bs) := by
  induction as generalizing s with
  | nil => rfl
  | cons a rest ih =>
    have later : each visit (rest ++ bs) = fun s => (each visit rest s).andThen (each visit bs) :=
      funext ih
    simp only [List.cons_append, each, andThen_assoc, later]

theorem each_flatMap (visit : β → σ → Flow σ) (parts : α → List β) (as : List α) (s : σ) :
    each visit (as.flatMap parts) s = each (fun a => each visit (parts a)) as s := by
  induction as generalizing s with
  | nil => rfl
  | cons a rest ih =>
    have later : each visit (rest.flatMap parts) = each (fun a => each visit (parts a)) rest :=
      funext ih
    simp only [List.flatMap_cons, each_append, each, later]

theorem each_map (visit : β → σ → Flow σ) (f : α → β) (as : List α) (s : σ) :
    each visit (as.map f) s = each (fun a => visit (f a)) as s := by
  induction as generalizing s with
  | nil => rfl
  | cons a rest ih => simp only [List.map_cons, each, funext ih]

end Flow

namespace Processor

variable {σ : Type} (p : Processor σ)

/-- Hands over an item that is wanted. -/
def take (item : Item) (s : σ) : Flow σ :=
  if p.wants item.name then p.process item s else .next s

/-- Hands over the items of a list. -/
def run (items : List Item) (s : σ) : Flow σ :=
  Flow.each p.take items s

theorem run_append (left right : List Item) (s : σ) :
    p.run (left ++ right) s = (p.run left s).andThen (p.run right) :=
  Flow.each_append ..

theorem run_flatMap {α : Type} (items : α → List Item) (as : List α) (s : σ) :
    p.run (as.flatMap items) s = Flow.each (fun a => p.run (items a)) as s :=
  Flow.each_flatMap ..

theorem offer_eq_run (file : FileId) (filter : ScopeFilter) (n : Node) (s : σ) :
    p.offer filter (.node ⟨file, n⟩) s = p.run (Scope.itemsOf file filter [n]) s := by
  unfold offer
  split
  · rename_i accepted
    simp only [Scope.itemsOf, List.map_cons, List.map_nil, List.filter_cons, accepted, if_true,
      List.filter_nil, List.filterMap_cons, List.filterMap_nil, Item.ofDeclaration?]
    split
    · rename_i unnamed
      simp [unnamed, run, Flow.each]
    · rename_i name named
      simp [named, run, Flow.each, take, Flow.andThen_next]
  · rename_i refused
    simp [Scope.itemsOf, refused, run, Flow.each]

theorem itemsOf_flatMap (file : FileId) (filter : ScopeFilter) (nodes : List Node) :
    Scope.itemsOf file filter nodes = nodes.flatMap fun n => Scope.itemsOf file filter [n] := by
  induction nodes with
  | nil => rfl
  | cons n rest ih =>
    rw [List.flatMap_cons, ← ih]
    simp only [Scope.itemsOf, ← List.filterMap_append, ← List.filter_append, ← List.map_append,
      List.cons_append, List.nil_append]

theorem offerNodes_eq_run (file : FileId) (filter : ScopeFilter) (nodes : List Node) (s : σ) :
    p.offerNodes file filter nodes s = p.run (Scope.itemsOf file filter nodes) s := by
  rw [itemsOf_flatMap, run_flatMap, offerNodes]
  congr 1
  funext n s
  exact p.offer_eq_run file filter n s

theorem offerTopLevel_eq_run (ws : Workspace) (filter : ScopeFilter) (file : FileId) (s : σ) :
    p.offerTopLevel ws filter file s = p.run (Scope.topLevelOf ws file filter) s := by
  unfold offerTopLevel Scope.topLevelOf
  cases found : ws.file? file with
  | none => rfl
  | some f => exact p.offerNodes_eq_run ..

theorem offerImports_eq_run (ws : Workspace) (file : FileId) (table : ImportTable) (s : σ) :
    Flow.each (p.offerImport ws file table) table.names s = p.run (Scope.importNames ws file table) s := by
  rw [Scope.importNames, run, Flow.each_map]
  rfl

theorem offerDotImports_eq_run (ws : Workspace) (file : FileId) (table : ImportTable)
    (filter : ScopeFilter) (s : σ) :
    Flow.each (p.offerDotImport ws file filter) table.dotPaths s =
      p.run (Scope.dotImported ws file table filter) s := by
  have visits : p.offerDotImport ws file filter = fun path => p.run
      ((ws.importDirectory? file path).toList.flatMap fun dir =>
        (ws.packageFiles dir).flatMap (Scope.topLevelOf ws · filter)) := by
    funext path s
    unfold offerDotImport
    split
    · rename_i missing
      simp [missing, run, Flow.each]
    · rename_i dir found
      have files : p.offerTopLevel ws filter = fun file => p.run (Scope.topLevelOf ws file filter) := by
        funext file s
        exact p.offerTopLevel_eq_run ws filter file s
      simp only [found, Option.toList_some, List.flatMap_cons, List.flatMap_nil, List.append_nil,
        run_flatMap, files]
  simp only [visits, ← run_flatMap, Scope.dotImported, List.filterMap_eq_flatMap_toList,
    List.flatMap_assoc]

/-- Offering the names of a file is handing over the list of those that are visible, in its order. -/
theorem offerFile_eq_run (ws : Workspace) (home : FileId) (element : Node) (file : FileId)
    (isLocal : Bool) (filter : ScopeFilter) (s : σ) :
    p.offerFile ws home element file isLocal filter s =
      p.run (Scope.ofFile ws home element file isLocal filter) s := by
  unfold offerFile Scope.ofFile
  cases found : ws.file? file with
  | none => rfl
  | some f =>
    have enclosing : Scope.itemsOf file filter
        (if isLocal && file == home then Scope.enclosing element else []) =
        if isLocal && file == home then Scope.walkUp file element filter else [] := by
      split <;> rfl
    simp only [offerNodes_eq_run, enclosing, run_append, Flow.andThen_assoc]
    congr 1
    funext s
    congr 1
    funext s
    cases isLocal with
    | false => rfl
    | true => simp only [if_true, run_append, offerImports_eq_run, offerDotImports_eq_run]

theorem resolving_take (name : String) (item : Item) :
    (resolving name).take item none =
      match if item.name = name then item.declaration else none with
      | some declaration => .stop (some declaration)
      | none => .next none := by
  by_cases same : item.name = name
  · cases declared : item.declaration <;> simp [take, resolving, same, declared]
  · simp [take, resolving, same]

/-- Looking for a name stops where the first item that answers stands. -/
theorem resolving_run (name : String) (items : List Item) :
    ((resolving name).run items none).state = Item.find name items := by
  induction items with
  | nil => rfl
  | cons item rest ih =>
    have step : (resolving name).run (item :: rest) none =
        ((resolving name).take item none).andThen ((resolving name).run rest) := rfl
    rw [step, resolving_take, Item.find, List.findSome?_cons]
    cases (if item.name = name then item.declaration else none) with
    | some declaration => rfl
    | none => exact ih

/-- Collecting never stops, and leaves nothing out. -/
theorem collecting_run (items found : List Item) :
    collecting.run items found = .next (found ++ items) := by
  induction items generalizing found with
  | nil => simp [run, Flow.each]
  | cons item rest ih =>
    have step : collecting.run (item :: rest) found = collecting.run rest (found ++ [item]) := rfl
    rw [step, ih, List.append_assoc, List.singleton_append]

end Processor

namespace Reference

theorem lookupIn_eq_find (ws : Workspace) (r : Reference) (file : FileId) (isLocal : Bool) :
    r.lookupIn ws file isLocal = r.name?.bind fun name => Item.find name (r.scopeIn ws file isLocal) := by
  unfold lookupIn
  congr 1
  funext name
  rw [← Processor.resolving_run]
  unfold offerFile scopeIn
  cases r.kind with
  | importPath => rfl
  | expr | typeName => rw [Processor.offerFile_eq_run]

theorem collectFrom_eq_flatMap (ws : Workspace) (r : Reference) (files : List (FileId × Bool)) :
    r.collectFrom ws files = files.flatMap fun (file, isLocal) => r.scopeIn ws file isLocal := by
  have file : ∀ items (entry : FileId × Bool), (r.offerFile ws .collecting entry.1 entry.2 items).state =
      items ++ r.scopeIn ws entry.1 entry.2 := by
    intro items entry
    unfold offerFile scopeIn
    cases r.kind with
    | importPath => simp [Flow.state]
    | expr | typeName => simp only [Processor.offerFile_eq_run, Processor.collecting_run, Flow.state]
  simp only [collectFrom, file, List.flatMap_eq_foldl]

end Reference

end GoNav
