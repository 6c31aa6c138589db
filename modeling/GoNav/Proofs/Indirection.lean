import GoNav.Proofs.MemberClosure

namespace GoNav

namespace Members

variable {ws : Workspace} {name : String} {d : Declaration} {typ target : FileNode}

/-- Only a declaration of a type has methods of its own for the type that it gives. -/
theorem owner?_of_type? (typed : d.type? = some typ) (other : d.kind ≠ .typ) : owner? typ = none := by
  cases d with
  | directory path => cases typed
  | node place =>
    obtain ⟨n, found, rfl⟩ := Option.map_eq_some_iff.mp typed
    obtain ⟨around, written, own⟩ := Node.exists_around_of_declaredType found
    have parent : n.parent = some around := Node.parent_of_mem_children (List.mem_of_find?_eq_some written)
    have kind : around.kind ≠ .typeSpec := by
      intro declaration
      obtain rfl := own declaration
      exact other (by simp [Declaration.kind, declaration, Kind.declares])
    simp [owner?, parent, kind]

theorem exists_of_pointee? (pointer : typ.node.kind = .pointerType) (points : pointee? typ = some target) :
    ∃ n, target = ⟨typ.file, n⟩ ∧ n.parent = some typ.node := by
  simp only [pointee?, pointer, beq_self_eq_true, if_true] at points
  obtain ⟨n, inner, rfl⟩ := Option.map_eq_some_iff.mp points
  have child : typ.node.typeExpr = some n := by simpa [Node.innerType, pointer] using inner
  exact ⟨n, rfl, Node.parent_of_mem_children (List.mem_of_find?_eq_some child)⟩

/-- A pointer has no members but those of the type that it points to by name. -/
theorem find_of_pointer {depth : Nat} (pointer : typ.node.kind = .pointerType) (unowned : owner? typ = none)
    (points : pointee? typ = some target) :
    find ws ws.typeSpecOf depth typ name =
      if target.node.kind = .typeName then find ws ws.typeSpecOf depth target name else none := by
  have own : search ws ws.typeSpecOf name depth typ = none :=
    search_eq_none (by simp [pointer]) (by simp [pointer]) unowned
  split
  · rename_i named
    obtain ⟨n, rfl, parent⟩ := exists_of_pointee? pointer points
    replace named : n.kind = .typeName := named
    have nothing : search ws ws.typeSpecOf name depth ⟨typ.file, n⟩ = none :=
      search_eq_none (by simp [named]) (by simp [named]) (by simp [owner?, parent, pointer])
    have plain : pointee? ⟨typ.file, n⟩ = some ⟨typ.file, n⟩ := pointee?_of_ne (by simp [named])
    simp only [find_eq, own, points, nothing, plain]
  · rename_i other
    have unnamed : reference? target = none :=
      Option.eq_none_iff_forall_ne_some.mpr fun reference refers => other (kind_of_reference? refers)
    simp only [find_eq, own, points, unnamed, Option.bind_some, Option.bind_none, Option.or_none]

end Members

namespace Workspace

variable {ws : Workspace}

/-- A pointer to a named type, as the type of a variable, parameter, receiver or field, has the members of that
type. A pointer to a struct that has no name has none, though those of the struct are listed for it. -/
theorem member?_of_pointer {d : Declaration} {typ target : FileNode} (name : String)
    (declares : d.kind ∈ [NameKind.variable, .parameter, .receiver, .field]) (typed : d.type? = some typ)
    (pointer : typ.node.kind = .pointerType) (points : Members.pointee? typ = some target) :
    (target.node.kind = .typeName → ws.member? typ name = ws.member? target name) ∧
      (target.node.kind = .structType → ws.member? typ name = none ∧ ws.members typ = ws.members target) := by
  have unowned : Members.owner? typ = none := by
    refine Members.owner?_of_type? typed fun isType => ?_
    rw [isType] at declares
    exact absurd declares (by decide)
  have found : ws.member? typ name = _ := Members.find_of_pointer pointer unowned points
  constructor
  · intro named
    rw [found, if_pos named]
    rfl
  · intro struct
    refine ⟨by rw [found, if_neg (by simp [struct])], ?_⟩
    have plain : Members.pointee? target = some target := Members.pointee?_of_ne (by simp [struct])
    simp only [members, Members.collect_eq, points, plain]

/-- Two parameters that are pointers, to a struct by its name and to a struct without one. -/
def pointing : Workspace :=
  (({} : Workspace).setText ⟨"/p/a.go"⟩
    "package p\ntype T struct\x7bx int\x7d\nfunc f(q*T,p*struct\x7bx int\x7d)\x7b_=q.x;_=p.x\x7d\n").2

theorem member?_of_pointer_pointing :
    ∃ (d : Declaration) (typ target : FileNode) (member : Declaration), d.kind = .parameter ∧
      d.name? = some "q" ∧ d.type? = some typ ∧ typ.node.kind = .pointerType ∧
      Members.pointee? typ = some target ∧ target.node.kind = .typeName ∧
      pointing.member? target "x" = some member ∧ pointing.member? typ "x" = some member := by
  have facts : ((pointing.nodes.find? (·.node.kind == .paramDef)).any fun place =>
      (Declaration.node place).kind == .parameter && (Declaration.node place).name? == some "q" &&
        (Declaration.node place).type?.any fun typ => typ.node.kind == .pointerType &&
          (Members.pointee? typ).any fun target => target.node.kind == .typeName &&
            (pointing.member? target "x").isSome) = true := by decide +kernel
  simp only [Option.any_eq_true, Bool.and_eq_true, beq_iff_eq, Option.isSome_iff_exists] at facts
  obtain ⟨place, _, ⟨kind, called⟩, typ, typed, pointer, target, points, named, member, found⟩ := facts
  refine ⟨_, typ, target, member, kind, called, typed, pointer, points, named, found, ?_⟩
  rw [(member?_of_pointer "x" (by rw [kind]; decide) typed pointer points).1 named, found]

/-- The field of a struct without a name is listed for a pointer to it, but not found by way of it. -/
theorem member?_not_of_pointer :
    ∃ (d : Declaration) (typ target : FileNode), d.kind = .parameter ∧ d.name? = some "p" ∧
      d.type? = some typ ∧ typ.node.kind = .pointerType ∧ Members.pointee? typ = some target ∧
      target.node.kind = .structType ∧ pointing.member? typ "x" ≠ pointing.member? target "x" ∧
      (pointing.members typ).map Item.name = ["x"] ∧ pointing.definitionAt? ⟨0⟩ 69 = none := by
  have facts : ((pointing.nodes.find? fun place => place.node.kind == .paramDef &&
      place.node.declaredName == some "p").any fun place =>
        (Declaration.node place).kind == .parameter && (Declaration.node place).name? == some "p" &&
          (Declaration.node place).type?.any fun typ => typ.node.kind == .pointerType &&
            (Members.pointee? typ).any fun target => target.node.kind == .structType &&
              (pointing.member? typ "x").isNone && (pointing.member? target "x").isSome &&
              (pointing.members typ).map Item.name == ["x"] &&
              (pointing.definitionAt? ⟨0⟩ 69).isNone) = true := by decide +kernel
  simp only [Option.any_eq_true, Bool.and_eq_true, beq_iff_eq, Option.isNone_iff_eq_none] at facts
  obtain ⟨place, _, ⟨kind, called⟩, typ, typed, pointer, target, points,
    ⟨⟨⟨struct, nothing⟩, found⟩, listed⟩, nowhere⟩ := facts
  refine ⟨_, typ, target, kind, called, typed, pointer, points, struct, fun same => ?_, listed, nowhere⟩
  rw [← same, nothing] at found
  cases found

end Workspace

end GoNav
