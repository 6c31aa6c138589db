import GoNav.Proofs.NameTokens
import GoNav.Proofs.Node.Ancestors
import GoNav.Proofs.Offsets
import GoNav.Proofs.Shadowing

namespace GoNav

/-! Where a declaration is named -/

theorem Node.declaredName_of_nameLeaf {n : Node} {l : Leaf} (leaf : n.nameLeaf = some l) :
    n.declaredName = some l.text := by
  unfold declaredName
  split
  · rename_i spec
    simp only [nameLeaf, spec] at leaf
    rw [localName, leaf]
  · rw [leaf]
    rfl

namespace Declaration

variable {ws : Workspace}

theorem IsIn.exists_nameLeaf {place : FileNode} {name : String} (known : IsIn ws (.node place))
    (named : place.node.declaredName = some name) :
    ∃ l ∈ place.node.leaves, place.node.nameLeaf = some l ∧ l.text = name := by
  obtain ⟨_, _, ownToken⟩ := known
  by_cases embedded : place.node.kind = .anonFieldDef
  · simp only [Node.declaredName, Node.nameLeaf, embedded] at named ⊢
    obtain ⟨l, found, text⟩ := Option.map_eq_some_iff.mp named
    obtain ⟨reference, refers, ident⟩ := Option.bind_eq_some_iff.mp found
    have inside := Node.embeddedReference_mem_descendants refers
    exact ⟨l, Node.mem_leaves.mpr ⟨reference, inside, (Node.token_spec ident).1⟩, found, text⟩
  · obtain ⟨l, token, _, leaf⟩ := ownToken embedded
    refine ⟨l, Node.mem_leaves.mpr ⟨_, Node.self_mem_descendants _, token⟩, leaf, ?_⟩
    rw [Node.declaredName_of_nameLeaf leaf] at named
    exact Option.some.inj named

end Declaration

namespace Workspace

variable {ws : Workspace} {file : FileId} {offset : Nat} {target : Target}

/-- The place of a declaration is the name that it gives, in the text of its file. -/
theorem focus_of_targetOf? {d : Declaration} {g : FileId} (known : d.IsIn ws)
    (made : ws.targetOf? d = some target) (there : target.file = some g) :
    ∃ f full focus, ws.file? g = some f ∧ target.path = some f.path ∧ target.full = some full ∧
      target.focus = some focus ∧ full.1 ≤ focus.1 ∧ focus.2 ≤ full.2 ∧ full.2 ≤ f.text.utf8ByteSize ∧
      f.text.toByteArray.extract focus.1 focus.2 = target.name.toByteArray := by
  obtain ⟨name, named, rfl⟩ := Option.map_eq_some_iff.mp made
  obtain ⟨n, rfl⟩ := Declaration.exists_node_of_file? there
  obtain ⟨f, atHand, inside⟩ := known.1
  obtain ⟨l, member, leaf, rfl⟩ := known.exists_nameLeaf named
  have outer := Node.bounds_of_mem_descendants inside
  have inner := Node.bounds_of_mem_leaves member
  obtain ⟨m, below, token⟩ := Node.mem_leaves.mp member
  have among : l ∈ f.root.leaves := Node.mem_leaves.mpr ⟨m, Node.descendants_trans inside below, token⟩
  refine ⟨f, (n.start, n.stop), (l.start, l.stop), atHand, ?_, rfl, ?_, inner.1, inner.2, ?_, ?_⟩
  · exact congrArg (Option.map SourceFile.path) atHand
  · simp only [Declaration.focusRange?, leaf]
  · exact f.stop_root ▸ outer.2
  · exact SourceFile.bytes_of_leaf among

/-- The place where a name is declared is called like the name, and if it lies in a file, it is a part of its
text that spells the name. -/
theorem definitionAt?_spells (found : ws.definitionAt? file offset = some target) :
    ∃ r, Reference.at? ws file offset = some r ∧
      (r.kind ≠ .importPath → ∃ f l, ws.file? file = some f ∧ l ∈ f.root.leaves ∧ r.nameLeaf = some l ∧
        l.kind = .ident ∧ l.start ≤ offset ∧ offset ≤ l.stop ∧
        f.text.toByteArray.extract l.start l.stop = target.name.toByteArray) ∧
      ∀ g, target.file = some g → ∃ f full focus, ws.file? g = some f ∧ target.path = some f.path ∧
        target.full = some full ∧ target.focus = some focus ∧ full.1 ≤ focus.1 ∧ focus.2 ≤ full.2 ∧
        full.2 ≤ f.text.utf8ByteSize ∧ f.text.toByteArray.extract focus.1 focus.2 = target.name.toByteArray := by
  obtain ⟨d, further, made⟩ := Option.bind_eq_some_iff.mp found
  obtain ⟨r, here, resolved⟩ := Option.bind_eq_some_iff.mp further
  obtain ⟨held, isReference⟩ := Reference.at?_spec here
  have sameFile := (Reference.ofNode?_spec isReference).1
  obtain ⟨known, sameName⟩ := Reference.faithful_resolve ws r d (sameFile ▸ held) resolved
  refine ⟨r, here, fun use => ?_, fun g there => focus_of_targetOf? known made there⟩
  obtain ⟨f, l, atHand, member, leaf, ident, after, upTo⟩ := Reference.nameLeaf_of_at? here use
  have name : d.name? = some l.text := by
    rw [sameName use, Reference.name?_use use, Node.identifierText, ← Reference.nameLeaf_use r use, leaf]
    rfl
  obtain ⟨_, named, rfl⟩ := Option.map_eq_some_iff.mp made
  cases name.symm.trans named
  exact ⟨f, l, atHand, member, leaf, ident, after, upTo, SourceFile.bytes_of_leaf member⟩

/-- A struct that embeds a pointer to a type of another file, which uses the field of that name. -/
def embeddingPointer : Workspace :=
  ((({} : Workspace).setText ⟨"/p/a.go"⟩ "package p\n/*é*/type T struct\x7b*U\x7d\n").2.setText ⟨"/p/b.go"⟩
    "package p\ntype U int\nfunc f(t T)\x7b_=t.U\x7d\n").2

theorem definitionAt?_spells_embedded :
    ∃ target r l f g, embeddingPointer.definitionAt? ⟨1⟩ 38 = some target ∧
      Reference.at? embeddingPointer ⟨1⟩ 38 = some r ∧ r.kind = .expr ∧ embeddingPointer.file? ⟨1⟩ = some f ∧
      r.nameLeaf = some l ∧ f.text.toByteArray.extract l.start l.stop = "U".toByteArray ∧
      target.file = some ⟨0⟩ ∧ embeddingPointer.file? ⟨0⟩ = some g ∧ target.path = some g.path ∧
      target.full = some (30, 32) ∧ target.focus = some (31, 32) ∧
      g.text.toByteArray.extract 31 32 = "U".toByteArray := by
  have facts : ((embeddingPointer.definitionAt? ⟨1⟩ 38).any fun target => target.name == "U" &&
      target.file == some ⟨0⟩ && target.full == some (30, 32) && target.focus == some (31, 32) &&
        (Reference.at? embeddingPointer ⟨1⟩ 38).any (·.kind == .expr)) = true := by decide +kernel
  simp only [Option.any_eq_true, Bool.and_eq_true, beq_iff_eq] at facts
  obtain ⟨target, found, ⟨⟨⟨name, there⟩, full⟩, focus⟩, r, here, use⟩ := facts
  obtain ⟨_, again, named, declared⟩ := definitionAt?_spells found
  cases here.symm.trans again
  obtain ⟨f, l, atHand, _, leaf, _, _, _, spelled⟩ := named (by rw [use]; decide)
  obtain ⟨g, _, _, atHand', path, sameFull, sameFocus, _, _, _, spelled'⟩ := declared ⟨0⟩ there
  cases full.symm.trans sameFull
  cases focus.symm.trans sameFocus
  rw [name] at spelled spelled'
  exact ⟨target, r, l, f, g, found, here, use, atHand, leaf, spelled, there, atHand', path, full, focus, spelled'⟩

end Workspace

end GoNav
