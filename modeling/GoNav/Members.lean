import GoNav.Bounded
import GoNav.Reference

namespace GoNav.Members

/-- The methods of a type that is declared at the top level of a file, in all files of its package. -/
def methodsOf (ws : Workspace) (spec : FileNode) : List FileNode :=
  let isTopLevel := (spec.node.parent.bind Node.parent).any (·.kind == .sourceFile)
  match spec.node.identifierText, ws.directoryOf? spec.file, isTopLevel with
  | some name, some dir, true =>
    ((ws.filesIn dir).filter fun id => ws.package? id == ws.package? spec.file).flatMap fun id =>
      (((ws.file? id).map (·.root.childrenOf .methodDecl)).getD []).filterMap fun method =>
        if method.receiverTypeName = some name then some ⟨id, method⟩ else none
  | _, _, _ => []

/-- The declaration that a type is the right-hand side of. -/
def owner? (typ : FileNode) : Option FileNode :=
  (typ.node.parent.filter (·.kind == .typeSpec)).map (⟨typ.file, ·⟩)

/-- The type itself, or for a pointer the type that it points to. -/
def pointee? (typ : FileNode) : Option FileNode :=
  if typ.node.kind == .pointerType then typ.node.innerType.map (⟨typ.file, ·⟩) else some typ

/-- The reference of a type that is a mere name. -/
def reference? (typ : FileNode) : Option FileNode :=
  typ.node.typeReference.map (⟨typ.file, ·⟩)

/-- The field declarations of a struct type. -/
def fieldDecls (typ : FileNode) : List Node :=
  if typ.node.kind == .structType then typ.node.childrenOf .fieldDecl else []

/-- The fields that a struct type declares itself, embedded ones included. -/
def ownFields (typ : FileNode) : List Node :=
  (fieldDecls typ).flatMap fun field =>
    field.childrenOf .fieldDef ++ (field.child .anonFieldDef).toList

/-- The references to the types that a struct type embeds. -/
def embedded (typ : FileNode) : List FileNode :=
  ((fieldDecls typ).filterMap (·.child .anonFieldDef)).filterMap fun field =>
    field.embeddedReference.map (⟨typ.file, ·⟩)

/-- The methods that an interface type lists. -/
def methodSpecs (typ : FileNode) : List Node :=
  if typ.node.kind == .interfaceType then typ.node.childrenOf .methodSpec else []

/-- The declaring node of a name in a list of them. -/
def named (name : String) (nodes : List FileNode) : Option Declaration :=
  (nodes.find? (·.node.declaredName == some name)).map .node

section

variable {m : Type → Type} [Bounded m] (ws : Workspace) (specOf : FileNode → m (Option FileNode))

/-- Goes on with a search in the type that a reference names, given how references to types are resolved. From
a type it does not go on to one with the same text. -/
def searchBehind (typ : FileNode) (searchIn : FileNode → m (Option Declaration)) (reference : FileNode) :
    m (Option Declaration) :=
  Bounded.andThen (specOf reference) fun spec =>
    match spec.node.typeExpr with
    | none => pure none
    | some inner => if typ.node.text = inner.text then pure none else searchIn ⟨spec.file, inner⟩

/-- The member of a type: a field of its own, or else a member of a type that it embeds, or else a method. A way
inward leads through at most `depth` types. -/
def searchM (name : String) : Nat → FileNode → m (Option Declaration)
  | 0, _ => Bounded.cutOff none
  | depth + 1, typ =>
    Bounded.orElse (pure (named name ((ownFields typ).map (⟨typ.file, ·⟩))))
      (Bounded.orElse ((embedded typ).findSomeM? (searchBehind specOf typ (searchM name depth)))
        (pure ((named name ((methodSpecs typ).map (⟨typ.file, ·⟩))).or
          ((owner? typ).bind fun spec => named name (methodsOf ws spec)))))

/-- The member of a type, or of the type that it names or points to. -/
def findM (depth : Nat) (typ : FileNode) (name : String) : m (Option Declaration) :=
  Bounded.orElse (searchM ws specOf name depth typ)
    (match (pointee? typ).bind fun target => (reference? target).map (target, ·) with
    | none => pure none
    | some (target, reference) => searchBehind specOf target (searchM ws specOf name depth) reference)

/-- Goes on with collecting in the type that a reference names. The declarations on the way inward are in `path`,
and none of them is entered again. -/
def collectBehind (path : List FileNode)
    (collectFrom : Option FileNode → FileNode → List FileNode → m (List Declaration)) (reference : FileNode) :
    m (List Declaration) := do
  match ← specOf reference with
  | none => return []
  | some spec =>
    if path.contains spec then return []
    else
      match spec.node.typeExpr with
      | none => return []
      | some inner => collectFrom (some spec) ⟨spec.file, inner⟩ (path ++ [spec])

/-- The members of a type around those that it has from the types that it embeds: before them its own fields, and
behind them its methods. -/
def around (owner : Option FileNode) (typ : FileNode) (promoted : List Declaration) : List Declaration :=
  (ownFields typ).map (.node ⟨typ.file, ·⟩) ++ promoted ++ (methodSpecs typ).map (.node ⟨typ.file, ·⟩) ++
    (owner.toList.flatMap (methodsOf ws)).map .node

/-- All members of a type: its own fields, the members of the types that it embeds, and its methods. -/
def collectInM : Nat → Option FileNode → FileNode → List FileNode → m (List Declaration)
  | 0, _, _, _ => Bounded.cutOff []
  | depth + 1, owner, typ, path => do
    let promoted ← Bounded.concatM (collectBehind specOf path (collectInM depth)) (embedded typ)
    return around ws owner typ promoted

/-- All members of a type or of what it points to, and those of the type that it names. -/
def collectM (depth : Nat) (typ : FileNode) : m (List Item) :=
  match pointee? typ with
  | none => pure []
  | some target => do
    let own ← collectInM ws specOf depth (owner? target) target (owner? target).toList
    let ofNamed ← (reference? target).elim (pure []) (collectBehind specOf [] (collectInM ws specOf depth))
    return (own ++ ofNamed).filterMap Item.ofDeclaration?

end

section

variable (ws : Workspace) (specOf : FileNode → Option FileNode)

def search (name : String) (depth : Nat) (typ : FileNode) : Option Declaration :=
  searchM (m := Id) ws specOf name depth typ

def find (depth : Nat) (typ : FileNode) (name : String) : Option Declaration :=
  findM (m := Id) ws specOf depth typ name

def collectIn (depth : Nat) (owner : Option FileNode) (typ : FileNode) (path : List FileNode) :
    List Declaration :=
  collectInM (m := Id) ws specOf depth owner typ path

def collect (depth : Nat) (typ : FileNode) : List Item :=
  collectM (m := Id) ws specOf depth typ

theorem searchBehind_id (typ : FileNode) (searchIn : FileNode → Option Declaration) (reference : FileNode) :
    searchBehind (m := Id) specOf typ searchIn reference =
      (specOf reference).bind fun spec =>
        spec.node.typeExpr.bind fun inner =>
          if typ.node.text = inner.text then none else searchIn ⟨spec.file, inner⟩ := by
  rw [searchBehind, Bounded.andThen_id]
  congr 1
  funext spec
  cases spec.node.typeExpr <;> rfl

theorem search_add_one (name : String) (depth : Nat) (typ : FileNode) :
    search ws specOf name (depth + 1) typ =
      (named name ((ownFields typ).map (⟨typ.file, ·⟩))).or
        (((embedded typ).findSome? fun reference =>
            (specOf reference).bind fun spec =>
              spec.node.typeExpr.bind fun inner =>
                if typ.node.text = inner.text then none else search ws specOf name depth ⟨spec.file, inner⟩).or
          ((named name ((methodSpecs typ).map (⟨typ.file, ·⟩))).or
            ((owner? typ).bind fun spec => named name (methodsOf ws spec)))) := by
  have below := funext (searchBehind_id specOf typ (search ws specOf name depth))
  rw [search, searchM]
  refine (Bounded.orElse_id ..).trans (congrArg _ ((Bounded.orElse_id ..).trans (congrArg (Option.or · _) ?_)))
  rw [← below]
  exact Bounded.findSomeM?_id ..

theorem find_eq (depth : Nat) (typ : FileNode) (name : String) :
    find ws specOf depth typ name =
      (search ws specOf name depth typ).or
        ((pointee? typ).bind fun target =>
          (reference? target).bind fun reference =>
            (specOf reference).bind fun spec =>
              spec.node.typeExpr.bind fun inner =>
                if target.node.text = inner.text then none
                else search ws specOf name depth ⟨spec.file, inner⟩) := by
  rw [find, findM]
  refine (Bounded.orElse_id ..).trans (congrArg _ ?_)
  cases pointee? typ with
  | none => rfl
  | some target =>
    cases refers : reference? target with
    | none => simp only [Option.bind_some, refers, Option.map_none, Option.bind_none]; rfl
    | some reference =>
      simp only [Option.bind_some, refers, Option.map_some]
      exact searchBehind_id specOf target (search ws specOf name depth) reference

theorem collectIn_add_one (depth : Nat) (owner : Option FileNode) (typ : FileNode) (path : List FileNode) :
    collectIn ws specOf (depth + 1) owner typ path =
      (ownFields typ).map (.node ⟨typ.file, ·⟩) ++
        ((embedded typ).flatMap fun reference =>
          match specOf reference with
          | none => []
          | some spec =>
            if path.contains spec then []
            else
              match spec.node.typeExpr with
              | none => []
              | some inner => collectIn ws specOf depth (some spec) ⟨spec.file, inner⟩ (path ++ [spec])) ++
        (methodSpecs typ).map (.node ⟨typ.file, ·⟩) ++
        (owner.toList.flatMap (methodsOf ws)).map .node := by
  have below := Bounded.concatM_id (collectBehind (m := Id) specOf path (collectIn ws specOf depth)) (embedded typ)
  exact congrArg (around ws owner typ) below

theorem collect_eq (depth : Nat) (typ : FileNode) :
    collect ws specOf depth typ =
      match pointee? typ with
      | none => []
      | some target =>
        let own := collectIn ws specOf depth (owner? target) target (owner? target).toList
        let ofNamed :=
          match (reference? target).bind specOf with
          | none => []
          | some spec =>
            match spec.node.typeExpr with
            | none => []
            | some inner => collectIn ws specOf depth (some spec) ⟨spec.file, inner⟩ [spec]
        (own ++ ofNamed).filterMap Item.ofDeclaration? := by
  rw [collect, collectM]
  cases pointee? typ with
  | none => rfl
  | some target =>
    dsimp only
    cases reference? target with
    | none => rfl
    | some reference => rfl

end

end GoNav.Members
