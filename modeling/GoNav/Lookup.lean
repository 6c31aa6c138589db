import GoNav.Scope

namespace GoNav

/-- Whether a walk through names goes on, with what was made of them so far. -/
inductive Flow (σ : Type) where
  | next (state : σ)
  | stop (state : σ)

namespace Flow

variable {σ α : Type}

def state : Flow σ → σ
  | .next s => s
  | .stop s => s

/-- Goes on with a further part of a walk, unless it has stopped. -/
def andThen : Flow σ → (σ → Flow σ) → Flow σ
  | .next s, further => further s
  | .stop s, _ => .stop s

/-- Walks through a list until a visit stops. -/
def each (visit : α → σ → Flow σ) : List α → σ → Flow σ
  | [], s => .next s
  | a :: rest, s => (visit a s).andThen (each visit rest)

end Flow

/-- What is done with the names of a scope. It is asked for a name before it is made out what the name
stands for, and it may end the walk. -/
structure Processor (σ : Type) where
  wants : String → Bool
  process : Item → σ → Flow σ

namespace Processor

variable {σ : Type}

/-- Stops at the first declaration of a name. -/
def resolving (name : String) : Processor (Option Declaration) where
  wants := (name == ·)
  process := fun item found =>
    if item.name ≠ name then .next found
    else
      match item.declaration with
      | some declaration => .stop (some declaration)
      | none => .next found

/-- Takes in every name, more than once where it is there more than once. -/
def collecting : Processor (List Item) where
  wants := fun _ => true
  process := fun item items => .next (items ++ [item])

/-- Offers a declaration that has a name. -/
def offer (p : Processor σ) (filter : ScopeFilter) (d : Declaration) (s : σ) : Flow σ :=
  if filter.accepts d then
    match d.name? with
    | none => .next s
    | some name => if p.wants name then p.process ⟨d.kind, name, some d⟩ s else .next s
  else .next s

/-- Offers the declarations that nodes of a file make. -/
def offerNodes (p : Processor σ) (file : FileId) (filter : ScopeFilter) (nodes : List Node) (s : σ) :
    Flow σ :=
  Flow.each (fun n => p.offer filter (.node ⟨file, n⟩)) nodes s

/-- Offers the name of an import, also where its package is not at hand. -/
def offerImport (p : Processor σ) (ws : Workspace) (file : FileId) (table : ImportTable)
    (name : String) (s : σ) : Flow σ :=
  if p.wants name then
    let declaration := table.resolve ws file name
    p.process ⟨(declaration.map Declaration.kind).getD .imported, name, declaration⟩ s
  else .next s

/-- Offers the names that a file adds to its package, if it is at hand. -/
def offerTopLevel (p : Processor σ) (ws : Workspace) (filter : ScopeFilter) (file : FileId) (s : σ) :
    Flow σ :=
  match ws.file? file with
  | none => .next s
  | some f => p.offerNodes file filter (Scope.topLevelDeclared f.root) s

/-- Offers the names of a package that a file imports without a qualifier. -/
def offerDotImport (p : Processor σ) (ws : Workspace) (file : FileId) (filter : ScopeFilter)
    (path : String) (s : σ) : Flow σ :=
  match ws.importDirectory? file path with
  | none => .next s
  | some dir => Flow.each (p.offerTopLevel ws filter) (ws.packageFiles dir) s

/-- Offers the names of a file that are visible at an element of the file `home`, those that hide
others first. Only in local mode are the names that enclose the element among them, and the imports of
the file. -/
def offerFile (p : Processor σ) (ws : Workspace) (home : FileId) (element : Node) (file : FileId)
    (isLocal : Bool) (filter : ScopeFilter) (s : σ) : Flow σ :=
  match ws.file? file with
  | none => .next s
  | some f =>
    let table := ImportTable.ofFile f.root
    let enclosing := if isLocal && file == home then Scope.enclosing element else []
    (p.offerNodes file filter enclosing s).andThen fun s =>
      (p.offerNodes file filter (Scope.topLevelDeclared f.root) s).andThen fun s =>
        if isLocal then
          (Flow.each (p.offerImport ws file table) table.names s).andThen fun s =>
            Flow.each (p.offerDotImport ws file filter) table.dotPaths s
        else .next s

end Processor

end GoNav
