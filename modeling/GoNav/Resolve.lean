import GoNav.Members

namespace GoNav

namespace Workspace

/-- All nodes of all files. -/
def nodes (ws : Workspace) : List FileNode :=
  ws.files.flatMap fun (id, f) => f.root.descendants.map (⟨id, ·⟩)

/-- More than the number of types that a member search can lead through without coming to one twice:
the type that it starts from, and those of all type declarations. -/
def memberDepth (ws : Workspace) : Nat :=
  (ws.nodes.filter (·.node.kind == .typeSpec)).length + 2

/-- More than the number of references that have to be resolved one for the other without coming to
one twice. -/
def referenceDepth (ws : Workspace) : Nat :=
  (ws.nodes.filter (·.node.kind.referenceKind.isSome)).length + 1

end Workspace

/-- The type declaration that a declaration is. -/
def Declaration.typeSpec? : Declaration → Option FileNode
  | .node place => if place.node.kind == .typeSpec then some place else none
  | .directory _ => none

namespace Reference

section

variable {m : Type → Type} [Bounded m] (ws : Workspace) (members : Nat)

/-- What the name of a reference stands for behind something that stands for `target`: a member of
its type, or else a name in the other files of the package that it is. A search for a member leads through at most
`members` types. -/
def resolveInM (specOf : FileNode → m (Option FileNode)) (r : Reference) (target : Declaration)
    (name : String) : m (Option Declaration) :=
  Bounded.orElse (target.type?.elim (pure none) fun typ => Members.findM ws specOf members typ name)
    (pure ((Scope.packageDirectory? ws target).bind fun dir =>
      ((ws.packageFiles dir).filter (· != r.file)).findSome? fun file => r.lookupIn ws file false))

/-- The type declaration that a reference in a type names, given how references are resolved. -/
def typeSpecM (resolve : Reference → m (Option Declaration)) (place : FileNode) : m (Option FileNode) := do
  return (← resolve ⟨.typeName, place.file, place.node⟩).bind Declaration.typeSpec?

/-- What the name of a reference stands for, where at most `depth` references have to be resolved one
for the other. -/
def resolveWithinM : Nat → Reference → m (Option Declaration)
  | 0, _ => Bounded.cutOff none
  | depth + 1, r =>
    let specOf := typeSpecM (resolveWithinM depth)
    match r.kind, r.name? with
    | .importPath, _ => pure ((ws.importDirectory? r.file r.node.unquoted).map .directory)
    | _, none => pure none
    | _, some name =>
      match r.qualifier? with
      | none =>
        pure ((Scope.unqualifiedFiles ws r.file).findSome? fun (file, isLocal) => r.lookupIn ws file isLocal)
      | some (.reference inner) =>
        Bounded.andThen (resolveWithinM depth inner) fun target => resolveInM ws members specOf r target name
      | some (.literal typ) => Members.findM ws specOf members typ name
      | some .other => pure none

end

/-- What the name of a reference stands for behind something that stands for `target`. -/
def resolveIn (ws : Workspace) (specOf : FileNode → Option FileNode) (r : Reference)
    (target : Declaration) (name : String) : Option Declaration :=
  resolveInM (m := Id) ws ws.memberDepth specOf r target name

/-- What the name of a reference stands for, where at most `depth` references have to be resolved one
for the other. -/
def resolveWithin (ws : Workspace) (depth : Nat) (r : Reference) : Option Declaration :=
  resolveWithinM (m := Id) ws ws.memberDepth depth r

theorem resolveIn_eq (ws : Workspace) (specOf : FileNode → Option FileNode) (r : Reference)
    (target : Declaration) (name : String) :
    r.resolveIn ws specOf target name =
      (target.type?.bind fun typ => Members.find ws specOf ws.memberDepth typ name).or
        ((Scope.packageDirectory? ws target).bind fun dir =>
          ((ws.packageFiles dir).filter (· != r.file)).findSome? fun file => r.lookupIn ws file false) := by
  rw [resolveIn, resolveInM]
  refine (Bounded.orElse_id ..).trans (congrArg (Option.or · _) ?_)
  cases target.type? <;> rfl

theorem resolveWithin_add_one (ws : Workspace) (depth : Nat) (r : Reference) :
    resolveWithin ws (depth + 1) r =
      match r.kind with
      | .importPath => (ws.importDirectory? r.file r.node.unquoted).map .directory
      | _ =>
        r.name?.bind fun name =>
          let specOf := fun (place : FileNode) =>
            (resolveWithin ws depth ⟨.typeName, place.file, place.node⟩).bind Declaration.typeSpec?
          match r.qualifier? with
          | none =>
            (Scope.unqualifiedFiles ws r.file).findSome? fun (file, isLocal) =>
              r.lookupIn ws file isLocal
          | some (.reference inner) =>
            (resolveWithin ws depth inner).bind fun target => resolveIn ws specOf r target name
          | some (.literal typ) => Members.find ws specOf ws.memberDepth typ name
          | some .other => none := by
  rw [resolveWithin, resolveWithinM]
  cases r.kind with
  | importPath => rfl
  | expr | typeName =>
    cases r.name? with
    | none => rfl
    | some name =>
      rcases r.qualifier? with _ | qualifier
      · rfl
      · cases qualifier with
        | reference inner => exact Bounded.andThen_id ..
        | literal typ | other => rfl

/-- What the name of a reference stands for. -/
def resolve (ws : Workspace) (r : Reference) : Option Declaration :=
  resolveWithin ws ws.referenceDepth r

/-- What the name of a reference stands for, unless a bound cuts the search for it off. -/
def answer? (ws : Workspace) (members depth : Nat) (r : Reference) : Option (Option Declaration) :=
  resolveWithinM (m := Option) ws members depth r

/-- Whether it comes to an end without a bound to look for what the name of a reference stands for. -/
def ends (ws : Workspace) (r : Reference) : Bool :=
  (r.answer? ws ws.memberDepth ws.referenceDepth).isSome

end Reference

namespace Workspace

/-- The type declaration that a reference in a type names. -/
def typeSpecOf (ws : Workspace) (place : FileNode) : Option FileNode :=
  (Reference.resolve ws ⟨.typeName, place.file, place.node⟩).bind Declaration.typeSpec?

/-- The member of a type. -/
def member? (ws : Workspace) (typ : FileNode) (name : String) : Option Declaration :=
  Members.find ws ws.typeSpecOf ws.memberDepth typ name

/-- All members of a type. -/
def members (ws : Workspace) (typ : FileNode) : List Item :=
  Members.collect ws ws.typeSpecOf ws.memberDepth typ

section

variable (ws : Workspace) (members depth : Nat)

/-- The type declaration that a reference in a type names, unless a bound cuts the search for it off. -/
def typeSpecWithin (place : FileNode) : Option (Option FileNode) :=
  Reference.typeSpecM (m := Option) (Reference.answer? ws members depth) place

/-- The member of a type, unless a bound cuts the search for it off. -/
def memberWithin (typ : FileNode) (name : String) : Option (Option Declaration) :=
  Members.findM (m := Option) ws (ws.typeSpecWithin members depth) members typ name

/-- All members of a type, unless a bound cuts the search for them off. -/
def membersWithin (typ : FileNode) : Option (List Item) :=
  Members.collectM (m := Option) ws (ws.typeSpecWithin members depth) members typ

end

/-- Whether it comes to an end without a bound to look for a member of a type. -/
def memberEnds (ws : Workspace) (typ : FileNode) (name : String) : Bool :=
  (ws.memberWithin ws.memberDepth ws.referenceDepth typ name).isSome

/-- Whether it comes to an end without a bound to list the members of a type. -/
def membersEnd (ws : Workspace) (typ : FileNode) : Bool :=
  (ws.membersWithin ws.memberDepth ws.referenceDepth typ).isSome

end Workspace

namespace Reference

/-- The names that could stand behind something that stands for `target`. -/
def candidatesIn (ws : Workspace) (r : Reference) (target : Declaration) : List Item :=
  match target.type? with
  | some typ => ws.members typ
  | none =>
    match Scope.packageDirectory? ws target with
    | none => []
    | some dir =>
      r.collectFrom ws (((ws.packageFiles dir).filter (· != r.file)).map (·, false))

/-- The names that could stand in the place of a reference, those that hide others first. -/
def candidates (ws : Workspace) (r : Reference) : List Item :=
  match r.kind with
  | .importPath => []
  | _ =>
    match r.qualifier? with
    | none => r.collectFrom ws (Scope.unqualifiedFiles ws r.file)
    | some (.reference inner) => ((inner.resolve ws).map (r.candidatesIn ws)).getD []
    | some (.literal typ) => ws.members typ
    | some .other => []

end Reference

end GoNav
