import GoNav.Proofs.ImportNames
import GoNav.Proofs.ScopeWalk

namespace GoNav

namespace Scope

variable {ws : Workspace} {file : FileId} {filter : ScopeFilter} {item : Item}

theorem dotImported_isIn {table : ImportTable} (member : item ∈ dotImported ws file table filter) :
    item.IsIn ws := by
  obtain ⟨dir, _, inside⟩ := List.mem_flatMap.mp member
  obtain ⟨other, _, among⟩ := List.mem_flatMap.mp inside
  intro d declared
  have defines := topLevelOf_defines among declared
  exact ⟨defines.isIn, fun _ => defines.name_eq⟩

/-- The names of a file that are visible at an element of the workspace stand for what they say. -/
theorem ofFile_isIn {home : FileId} {element : Node} {isLocal : Bool} (held : ws.Holds ⟨home, element⟩)
    (member : item ∈ ofFile ws home element file isLocal filter) : item.IsIn ws := by
  unfold ofFile at member
  split at member
  · cases member
  · rename_i f found
    simp only [List.mem_append] at member
    rcases member with (around | top) | outside
    · split at around
      · rename_i here
        cases eq_of_beq (Bool.and_eq_true_iff.mp here).2
        have defined : ∀ n ∈ enclosing element, ws.Holds ⟨file, n⟩ ∧ n.IsDefinition :=
          fun n among => ⟨held.near (enclosing_spec among).1, (enclosing_spec among).2⟩
        intro d declared
        have defines := itemsOf_defines defined around declared
        exact ⟨defines.isIn, fun _ => defines.name_eq⟩
      · cases around
    · intro d declared
      have defines := topLevelOf_defines (by rw [topLevelOf, found]; exact top) declared
      exact ⟨defines.isIn, fun _ => defines.name_eq⟩
    · split at outside
      · rcases List.mem_append.mp outside with imported | dotted
        · exact importNames_isIn found imported
        · exact dotImported_isIn dotted
      · cases outside

end Scope

/-! References without a qualifier -/

namespace Reference

variable {ws : Workspace} {r : Reference} {file : FileId} {isLocal : Bool} {d : Declaration} {name : String}

/-- The name of a reference is no dots. -/
theorem name_ne_dots (held : ws.Holds ⟨r.file, r.node⟩) (use : r.kind ≠ .importPath)
    (named : r.name? = some name) : name ≠ ".." := by
  have text : r.node.identifierText = some name := by
    unfold name? at named
    split at named
    · exact absurd ‹_› use
    · exact named
  obtain ⟨l, found, rfl⟩ := Option.map_eq_some_iff.mp text
  obtain ⟨token, ident⟩ := Node.token_spec found
  obtain ⟨c, rest, written, notDot⟩ := held.text_of_ident token ident
  intro dots
  have chars := congrArg String.toList (written.symm.trans dots)
  rw [String.toList_ofList] at chars
  exact notDot (List.cons.inj chars).1

theorem exists_item_of_lookupIn (found : r.lookupIn ws file isLocal = some d) :
    ∃ name, r.name? = some name ∧ ∃ item ∈ r.scopeIn ws file isLocal,
      item.name = name ∧ item.declaration = some d := by
  rw [lookupIn_eq_find] at found
  obtain ⟨name, named, first⟩ := Option.bind_eq_some_iff.mp found
  obtain ⟨item, member, chosen⟩ := List.exists_of_findSome?_eq_some first
  split at chosen
  · exact ⟨name, named, item, member, ‹_›, chosen⟩
  · cases chosen

theorem lookupIn_isIn (held : ws.Holds ⟨r.file, r.node⟩) (found : r.lookupIn ws file isLocal = some d) :
    d.IsIn ws ∧ d.name? = r.name? := by
  obtain ⟨name, named, item, member, rfl, declared⟩ := exists_item_of_lookupIn found
  have use : r.kind ≠ .importPath := by
    intro path
    simp [scopeIn, path] at member
  have visible : item ∈ Scope.ofFile ws r.file r.node file isLocal r.filter := by
    unfold scopeIn at member
    split at member
    · cases member
    · exact member
  obtain ⟨known, called⟩ := Scope.ofFile_isIn held visible d declared
  exact ⟨known, (called (name_ne_dots held use named)).trans named.symm⟩

/-- What a name stands for in another file of a package is no package. -/
theorem lookupIn_defines (found : r.lookupIn ws file false = some d) :
    ∃ name, r.name? = some name ∧ d.Defines ws name := by
  obtain ⟨name, named, item, member, rfl, declared⟩ := exists_item_of_lookupIn found
  refine ⟨item.name, named, ?_⟩
  unfold scopeIn Scope.ofFile at member
  split at member
  · cases member
  · split at member
    · cases member
    · rename_i f present
      simp only [Bool.false_and, Bool.false_eq_true, if_false, List.nil_append, List.append_nil] at member
      exact Scope.topLevelOf_defines (by rw [Scope.topLevelOf, present]; exact member) declared

end Reference

end GoNav
