import GoNav.Resolve
import GoNav.Visitor

namespace GoNav

/-- A place to go to. A package has a directory and no file. -/
structure Target where
  file : Option FileId
  path : Option Path
  full : Option (Nat × Nat)
  focus : Option (Nat × Nat)
  name : String
  kind : NameKind

/-- The uses of something. -/
structure References where
  declaration : Option Declaration := none
  places : List (FileId × (Nat × Nat)) := []

namespace Workspace

/-- The place of a declaration that has a name. -/
def targetOf? (ws : Workspace) (d : Declaration) : Option Target :=
  d.name?.map fun name =>
    { file := d.file?
      path := match d with
        | .directory path => some path
        | .node place => (ws.file? place.file).map SourceFile.path
      full := d.fullRange?
      focus := d.focusRange?
      name
      kind := d.kind }

/-- Where the name at a byte offset is declared. -/
def definitionAt? (ws : Workspace) (file : FileId) (offset : Nat) : Option Target :=
  ((Reference.at? ws file offset).bind (Reference.resolve ws)).bind ws.targetOf?

/-- What is declared or referred to at a byte offset. -/
def declarationAt? (ws : Workspace) (file : FileId) (offset : Nat) : Option Declaration :=
  match Reference.at? ws file offset with
  | some r => r.resolve ws
  | none =>
    (ws.file? file).bind fun f =>
      ((f.root.leavesAt offset).find? (·.kind == .ident)).bind fun l =>
        Declaration.ofNode? file l.parent

/-- Whether a reference has a chance to mean something of the given name. The name of an import is
its path, which tells nothing. -/
def mayMean (name : Option String) (r : Reference) : Bool :=
  r.kind == .importPath || name.isNone || r.name? == name

/-- Collects the references of a file to a declaration. -/
def referenceVisitor (ws : Workspace) (file : FileId) (target : Declaration) :
    Visitor (List (FileId × (Nat × Nat))) where
  specific := fun kind =>
    kind.referenceKind.map fun _ n found =>
      match Reference.ofNode? file n with
      | none => found
      | some r =>
        if mayMean target.name? r && r.resolve ws == some target then found ++ [(file, r.range)]
        else found

/-- All references to what is declared or referred to at a byte offset. -/
def referencesAt (ws : Workspace) (file : FileId) (offset : Nat) : References :=
  match ws.declarationAt? file offset with
  | none => {}
  | some target =>
    { declaration := some target
      places := ws.files.foldl
        (fun found (id, f) => (ws.referenceVisitor id target).walk f.root found) [] }

end Workspace

end GoNav
