import GoNav.Navigation
import GoNav.Proofs.Resolution

namespace GoNav

variable {ws : Workspace} {file : FileId} {offset : Nat} {f : SourceFile} {n : Node} {l : Leaf}

theorem Workspace.holds_parent (found : ws.file? file = some f) (member : l ∈ f.root.leavesAt offset) :
    ws.Holds ⟨file, l.parent⟩ ∧ l ∈ l.parent.tokens := by
  obtain ⟨m, below, token⟩ := Node.mem_leaves.mp (List.mem_filter.mp member).1
  rw [Node.parent_of_mem_tokens token]
  exact ⟨⟨f, found, below⟩, token⟩

/-! References -/

namespace Reference

variable {r : Reference}

/-- The tokens that may be the name of a reference or its quoted path. -/
def isNameKind (kind : Kind) : Bool :=
  kind == .ident || kind == .string || kind == .rawString

theorem ofNode?_spec (isReference : ofNode? file n = some r) :
    r.file = file ∧ r.node = n ∧ n.kind.referenceKind = some r.kind := by
  obtain ⟨kind, refers, rfl⟩ := Option.map_eq_some_iff.mp isReference
  exact ⟨rfl, rfl, refers⟩

theorem at?_spec (found : at? ws file offset = some r) :
    ws.Holds ⟨file, r.node⟩ ∧ ofNode? file r.node = some r := by
  obtain ⟨f, atHand, further⟩ := Option.bind_eq_some_iff.mp found
  obtain ⟨l, first, isReference⟩ := Option.bind_eq_some_iff.mp further
  rw [(ofNode?_spec isReference).2.1]
  exact ⟨(Workspace.holds_parent atHand (List.mem_of_find?_eq_some first)).1, isReference⟩

/-- What is found in a name or at its end depends on the node of the name alone. -/
theorem at?_eq (held : ws.Holds ⟨file, n⟩) (token : l ∈ n.tokens) (name : isNameKind l.kind = true)
    (after : l.start < offset) (upTo : offset ≤ l.stop) : at? ws file offset = ofNode? file n := by
  obtain ⟨f, rest, found, first⟩ := held.leavesAt token after upTo
  have parent := Node.parent_of_mem_tokens token
  rw [isNameKind] at name
  simp only [at?, found, first, Option.bind_some, List.find?_cons, name, parent]

theorem nameLeaf_spec (named : r.nameLeaf = some l) : l ∈ r.node.tokens ∧ isNameKind l.kind = true := by
  unfold nameLeaf at named
  split at named
  · have quote := List.find?_some (p := fun l : Leaf => l.kind == .string || l.kind == .rawString) named
    refine ⟨List.mem_of_find?_eq_some named, ?_⟩
    rw [isNameKind, Bool.or_assoc, quote, Bool.or_true]
  · obtain ⟨token, ident⟩ := Node.token_spec named
    rw [ident]
    exact ⟨token, rfl⟩

theorem eq_importString {kind : Kind} (refers : kind.referenceKind = some .importPath) :
    kind = .importString := by
  unfold Kind.referenceKind at refers
  split at refers
  · cases refers
  · cases refers
  · rfl
  · cases refers

/-- A reference that stands for something has a token for its name. -/
theorem exists_nameLeaf {d : Declaration} (held : ws.Holds ⟨r.file, r.node⟩)
    (isReference : ofNode? r.file r.node = some r) (resolved : r.resolve ws = some d) :
    ∃ l, r.nameLeaf = some l := by
  rw [← Option.isSome_iff_exists]
  by_cases path : r.kind = .importPath
  · obtain ⟨l, token, quote⟩ := held.quoted (eq_importString (path ▸ (ofNode?_spec isReference).2.2))
    simp only [nameLeaf, path, List.find?_isSome]
    exact ⟨l, token, by simpa using quote⟩
  · obtain ⟨name, named⟩ := exists_name path resolved
    unfold name? at named
    unfold nameLeaf
    split at named
    · rename_i isPath
      exact absurd isPath path
    · obtain ⟨l, found, _⟩ := Option.map_eq_some_iff.mp named
      rw [found]
      rfl

end Reference

/-! Declarations -/

namespace Kind

/-- What introduces a name does not refer to one. -/
theorem referenceKind_of_declares {kind : Kind} (introduces : kind.declares.isSome = true) :
    kind.referenceKind = none := by
  cases refers : kind.referenceKind with
  | none => rfl
  | some use =>
    unfold referenceKind at refers
    split at refers
    · cases introduces
    · cases introduces
    · cases introduces
    · cases refers

end Kind

namespace Workspace

variable {d : Declaration}

/-- What stands at an offset is in the workspace. -/
theorem declarationAt?_isIn (found : ws.declarationAt? file offset = some d) : d.IsIn ws := by
  unfold declarationAt? at found
  split at found
  · rename_i r here
    obtain ⟨held, isReference⟩ := Reference.at?_spec here
    have sameFile := (Reference.ofNode?_spec isReference).1
    exact (Reference.faithful_resolve ws r d (sameFile ▸ held) found).1
  · obtain ⟨f, atHand, further⟩ := Option.bind_eq_some_iff.mp found
    obtain ⟨l, first, declared⟩ := Option.bind_eq_some_iff.mp further
    obtain ⟨held, token⟩ := holds_parent atHand (List.mem_of_find?_eq_some first)
    have ident := List.find?_some (p := fun l : Leaf => l.kind == .ident) first
    unfold Declaration.ofNode? at declared
    split at declared
    · rename_i declares
      cases declared
      refine ⟨held, declares, fun ownToken => ?_⟩
      have some : (l.parent.token .ident).isSome := List.find?_isSome.mpr ⟨l, token, ident⟩
      obtain ⟨name, given⟩ := Option.isSome_iff_exists.mp some
      obtain ⟨among, isIdent⟩ := Node.token_spec given
      refine ⟨name, among, isIdent, ?_⟩
      simp only [Node.nameLeaf]
      split
      · rw [Node.importAlias, given, Option.some_or]
      · rename_i anonymous
        exact absurd anonymous ownToken
      · exact given
    · cases declared

/-- In the name of a reference, and at its end, is what the reference stands for. -/
theorem declarationAt?_of_use {r : Reference} (held : ws.Holds ⟨r.file, r.node⟩)
    (isReference : Reference.ofNode? r.file r.node = some r) (resolved : r.resolve ws = some d)
    (after : r.range.1 < offset) (upTo : offset ≤ r.range.2) :
    ws.declarationAt? r.file offset = some d := by
  obtain ⟨l, named⟩ := Reference.exists_nameLeaf held isReference resolved
  obtain ⟨token, name⟩ := Reference.nameLeaf_spec named
  simp only [Reference.range, named] at after upTo
  have here : Reference.at? ws r.file offset = some r :=
    (Reference.at?_eq held token name after upTo).trans isReference
  simp only [declarationAt?, here, resolved]

/-- In the name of a declaration, and at its end, is the declaration. -/
theorem declarationAt?_of_name {place : FileNode} {range : Nat × Nat}
    (known : Declaration.IsIn ws (.node place)) (ownToken : place.node.kind ≠ .anonFieldDef)
    (focus : (Declaration.node place).focusRange? = some range) (after : range.1 < offset)
    (upTo : offset ≤ range.2) : ws.declarationAt? place.file offset = some (.node place) := by
  obtain ⟨held, declares, named⟩ := known
  obtain ⟨l, token, ident, leaf⟩ := named ownToken
  simp only [Declaration.focusRange?, leaf, Option.some.injEq] at focus
  subst focus
  have name : Reference.isNameKind l.kind = true := by rw [ident]; rfl
  have noReference : Reference.at? ws place.file offset = none := by
    rw [Reference.at?_eq held token name after upTo, Reference.ofNode?,
      Kind.referenceKind_of_declares declares]
    rfl
  obtain ⟨f, rest, found, first⟩ := held.leavesAt token after upTo
  simp only [declarationAt?, noReference, found, first, Option.bind_some, List.find?_cons, ident,
    beq_self_eq_true, Node.parent_of_mem_tokens token, Declaration.ofNode?, declares, if_true]

end Workspace

end GoNav
