import GoNav.Proofs.ImportEntries

namespace GoNav

namespace ImportTable

/-- An entry under a name comes from an import of the file that has that name. -/
theorem exists_import {root : Node} {name : String} {e : ImportEntry} (member : e ∈ (ofFile root).get name) :
    ∃ spec ∈ root.imports, entryOf? spec = some (name, e) := by
  rw [get_ofFile] at member
  obtain ⟨pair, kept, rfl⟩ := List.mem_map.mp member
  obtain ⟨among, named⟩ := List.mem_filter.mp kept
  obtain ⟨spec, imported, made⟩ := List.mem_filterMap.mp among
  exact ⟨spec, imported, eq_of_beq named ▸ made⟩

theorem entryOf?_cases {spec : Node} {name : String} {e : ImportEntry}
    (entry : entryOf? spec = some (name, e)) :
    (∃ l, spec.importAlias = some l ∧ l.text = name ∧ e = .spec spec) ∨
      (∃ path, e = .path spec path ∧ Node.lastSegment path = name ∧ name ≠ "") := by
  unfold entryOf? Node.localName at entry
  cases given : spec.importAlias with
  | some l =>
    simp only [given, Option.isSome_some, if_true, Option.some.injEq, Prod.mk.injEq] at entry
    exact Or.inl ⟨l, rfl, entry.1, entry.2.symm⟩
  | none =>
    cases quoted : spec.importPath with
    | none => simp [given, quoted] at entry
    | some path =>
      by_cases empty : Node.lastSegment path = ""
      · simp [given, quoted, empty, Option.filter] at entry
      · simp only [given, quoted, Option.map_some, Option.filter, bne_iff_ne, ne_eq, empty,
          not_false_eq_true, if_true, Option.isSome_none, Bool.false_eq_true, if_false,
          Option.some.injEq, Prod.mk.injEq] at entry
        exact Or.inr ⟨path, entry.2.symm, entry.1, entry.1 ▸ empty⟩

end ImportTable

theorem Workspace.importDirectory?_eq {ws : Workspace} {file : FileId} {text : String} {dir : Path}
    (found : ws.importDirectory? file text = some dir) :
    ∃ root : Path, dir = (root.join ⟨text⟩).normalize := by
  unfold importDirectory? at found
  split at found
  · cases found
  · obtain ⟨root, _, same⟩ := List.mem_map.mp (List.mem_of_find?_eq_some found)
    exact ⟨root, same.symm⟩

namespace Scope

variable {ws : Workspace} {file : FileId} {f : SourceFile} {name : String} {d : Declaration}

theorem spec_isIn {spec : Node} {l : Leaf} (held : ws.Holds ⟨file, spec⟩) (kind : spec.kind = .importSpec)
    (given : spec.importAlias = some l) (notDot : l.text ≠ ".") : Declaration.IsIn ws (.node ⟨file, spec⟩) := by
  refine ⟨held, ?_, fun _ => ?_⟩
  · show spec.kind.declares.isSome
    rw [kind]
    rfl
  · have leaf : spec.nameLeaf = some l := by simp only [Node.nameLeaf, kind, given]
    rcases Option.or_eq_some_iff.mp given with ident | ⟨_, dot⟩
    · obtain ⟨token, isIdent⟩ := Node.token_spec ident
      exact ⟨l, token, isIdent, leaf⟩
    · -- An import that is given a dot brings in names and has none itself.
      obtain ⟨token, isDot⟩ := Node.token_spec dot
      exact absurd (held.text_of_dot token isDot) notDot

/-- What an import stands for is called like the import. -/
theorem resolve_isIn (found : ws.file? file = some f) (usable : name ∈ (ImportTable.ofFile f.root).names)
    (resolved : (ImportTable.ofFile f.root).resolve ws file name = some d) :
    d.IsIn ws ∧ (name ≠ ".." → d.name? = some name) := by
  have notDot : name ≠ "." := by
    have filtered := (List.mem_filter.mp usable).2
    simp only [Bool.and_eq_true, bne_iff_ne] at filtered
    exact filtered.1
  obtain ⟨entry, member, stands⟩ := List.exists_of_findSome?_eq_some resolved
  obtain ⟨spec, imported, made⟩ := ImportTable.exists_import member
  rcases ImportTable.entryOf?_cases made with ⟨l, given, rfl, rfl⟩ | ⟨path, rfl, rfl, notEmpty⟩
  · obtain rfl := Option.some.inj stands
    have held := (Workspace.holds_root found).near (topLevelSpecs_near imported)
    have kind : spec.kind = .importSpec := by
      obtain ⟨outer, _, inside⟩ := List.mem_flatMap.mp imported
      exact Node.kind_of_mem_childrenOf inside
    refine ⟨spec_isIn held kind given notDot, fun _ => ?_⟩
    simp [Declaration.name?, Node.declaredName, kind, Node.localName, given]
  · obtain ⟨dir, directory, rfl⟩ := Option.map_eq_some_iff.mp stands
    obtain ⟨root, rfl⟩ := Workspace.importDirectory?_eq directory
    refine ⟨⟨root.join ⟨path⟩, rfl⟩, fun notUp => ?_⟩
    have effect : Path.Component.ofPiece (Node.lastSegment path) = some (.name (Node.lastSegment path)) := by
      simp [Path.Component.ofPiece, notEmpty, notDot, notUp]
    rw [Declaration.name?, Path.fileName?_normalize_join effect]

theorem importNames_isIn {item : Item} (found : ws.file? file = some f)
    (member : item ∈ importNames ws file (.ofFile f.root)) : item.IsIn ws := by
  obtain ⟨name, usable, rfl⟩ := List.mem_map.mp member
  exact fun d resolved => resolve_isIn found usable resolved

end Scope

end GoNav
