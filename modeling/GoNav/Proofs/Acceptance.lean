import GoNav.Completion
import GoNav.Proofs.Respelling

namespace GoNav

/-! What is selected -/

namespace Completion

/-- A name is offered as the first item of that name is. -/
theorem mem_select {start : List Char} {place : Nat} {seen : List String} {items : List Item} {x : Completion}
    (member : x ∈ select start place seen items) :
    ∃ before item behind, items = before ++ item :: behind ∧ x = ofItem (place + before.length) item ∧
      (start.isPrefixOf item.name.toList && !seen.contains item.name) = true ∧
      ∀ other ∈ before, other.name ≠ item.name := by
  induction items generalizing place seen with
  | nil => cases member
  | cons first rest ih =>
    have next (n : Nat) : place + 1 + n = place + (n + 1) := by omega
    rw [select] at member
    split at member
    · rename_i chosen
      rcases List.mem_cons.mp member with rfl | later
      · exact ⟨[], first, rest, rfl, rfl, chosen, fun _ none => absurd none List.not_mem_nil⟩
      · obtain ⟨before, item, behind, rfl, rfl, suits, earlier⟩ := ih later
        simp only [Bool.and_eq_true, Bool.not_eq_true', List.contains_cons, Bool.or_eq_false_iff,
          beq_eq_false_iff_ne] at suits
        refine ⟨first :: before, item, behind, rfl, by rw [next, List.length_cons], ?_, ?_⟩
        · rw [suits.1, suits.2.2]
          rfl
        · exact List.forall_mem_cons.mpr ⟨Ne.symm suits.2.1, earlier⟩
    · rename_i skipped
      obtain ⟨before, item, behind, rfl, rfl, suits, earlier⟩ := ih member
      -- An item that is passed over has another name: whether one suits depends on its name alone.
      refine ⟨first :: before, item, behind, rfl, by rw [next, List.length_cons], suits, ?_⟩
      exact List.forall_mem_cons.mpr ⟨fun same => skipped (same ▸ suits), earlier⟩

/-- The text with a completion in the place of a token, from the tokens before and behind that. -/
def between (x : Completion) (before behind : List Token) : String :=
  String.join (before.map Token.text ++ x.label :: behind.map Token.text)

end Completion

theorem Item.find_of_first {before behind : List Item} {item : Item} {d : Declaration}
    (declared : item.declaration = some d) (earlier : ∀ other ∈ before, other.name ≠ item.name) :
    Item.find item.name (before ++ item :: behind) = some d := by
  have nothing : Item.find item.name before = none :=
    (find_eq_none_iff ..).mpr fun other among same => absurd same (earlier other among)
  rw [find_append, nothing, Option.none_or, find, List.findSome?_cons, if_pos rfl, declared]

/-! What is shown of an item is true of its declaration -/

namespace Scope

variable {ws : Workspace} {file : FileId} {filter : ScopeFilter} {item : Item}

/-- The sort of thing that an item shows is that of its declaration. -/
def ShowsKind (item : Item) : Prop :=
  ∀ d, item.declaration = some d → d.kind = item.kind

theorem itemsOf_showsKind {nodes : List Node} (member : item ∈ itemsOf file filter nodes) : ShowsKind item := by
  obtain ⟨d, _, made⟩ := List.mem_filterMap.mp member
  obtain ⟨name, _, rfl⟩ := Option.map_eq_some_iff.mp made
  exact fun e same => congrArg Declaration.kind (Option.some.inj same).symm

theorem topLevelOf_showsKind (member : item ∈ topLevelOf ws file filter) : ShowsKind item := by
  unfold topLevelOf at member
  split at member
  · cases member
  · exact itemsOf_showsKind member

theorem importNames_showsKind {table : ImportTable} (member : item ∈ importNames ws file table) :
    ShowsKind item := by
  obtain ⟨name, _, rfl⟩ := List.mem_map.mp member
  intro d resolved
  simp only at resolved
  simp only [resolved, Option.map_some, Option.getD_some]

theorem ofFile_showsKind {home : FileId} {element : Node} {isLocal : Bool}
    (member : item ∈ ofFile ws home element file isLocal filter) : ShowsKind item := by
  unfold ofFile at member
  split at member
  · cases member
  · simp only [List.mem_append] at member
    rcases member with (around | top) | outside
    · split at around
      · exact itemsOf_showsKind around
      · cases around
    · exact itemsOf_showsKind top
    · split at outside
      · rcases List.mem_append.mp outside with imported | dotted
        · exact importNames_showsKind imported
        · obtain ⟨dir, _, inside⟩ := List.mem_flatMap.mp dotted
          obtain ⟨other, _, among⟩ := List.mem_flatMap.mp inside
          exact topLevelOf_showsKind among
      · cases outside

end Scope

/-! A file with another name in it -/

namespace Workspace

theorem respells_insert (ws : Workspace) (id : FileId) {f g : SourceFile} (paths : f.path = g.path)
    (twins : f.root.Twins Leaf.Agrees g.root) (packages : f.package = g.package) :
    Respells (ws.insert id f) (ws.insert id g) where
  toSamePlaces := (editedAt_insert ws id paths).toSamePlaces
  twins other := by
    rw [file?_insert, file?_insert]
    split
    · exact .some ⟨twins, packages⟩
    · cases ws.file? other with
      | none => exact .none
      | some h => exact .some ⟨h.twins_self, rfl⟩

theorem Orderly.setText_fst {ws : Workspace} (orderly : ws.Orderly) {file : FileId} {f : SourceFile}
    (found : ws.file? file = some f) (text : String) : (ws.setText f.path text).1 = file := by
  have member := mem_files_of_file? found
  have numbered := orderly.numbered _ member
  rw [← (orderly.read _ member).normalize_path] at numbered
  rw [Workspace.setText, FileSet.assign_of_get? numbered]

end Workspace

namespace Reference

variable {ws ws' : Workspace} {r : Reference}

/-- The identifier at the place where a reference is found is its name. -/
theorem identifier_at {id : FileId} {offset : Nat} {f : SourceFile} {t : Token} (atHand : ws.file? id = some f)
    (found : at? ws id offset = some r) (use : r.kind ≠ .importPath) (member : t ∈ Token.scan f.text)
    (ident : t.kind = .ident) (touched : t.start ≤ offset ∧ offset ≤ t.stop) :
    ∃ l ∈ f.root.leaves, r.node.identifier = some l ∧ l.start = t.start := by
  obtain ⟨g, l, again, inside, named, isIdent, before, behind⟩ := nameLeaf_of_at? found use
  cases atHand.symm.trans again
  obtain ⟨u, scanned, kind, text, start⟩ := SourceFile.exists_token_at inside
  have touched' : u.start ≤ offset ∧ offset ≤ u.stop := by
    rw [Token.stop, start, text]
    exact ⟨before, behind⟩
  obtain rfl := Token.ident_unique scanned member (kind.trans isIdent) ident touched' touched
  exact ⟨l, inside, (nameLeaf_use r use).symm.trans named, start.symm⟩

theorem qualifier?_twin {R : Leaf → Leaf → Prop} {m : Node} (twins : r.node.Twins R m)
    (plain : r.qualifier? = none) : (⟨r.kind, r.file, m⟩ : Reference).qualifier? = none := by
  have absent {p : Kind → Bool} (nothing : r.node.childWhere p = none) : m.childWhere p = none := by
    have related := twins.childWhere p
    rw [nothing] at related
    generalize m.childWhere p = inner at related ⊢
    cases related
    rfl
  rw [qualifier?] at plain ⊢
  cases kind : r.kind with
  | importPath => rfl
  | typeName =>
    rw [kind] at plain
    exact Option.map_eq_none_iff.mpr (absent (Option.map_eq_none_iff.mp plain))
  | expr =>
    rw [kind] at plain
    exact Option.map_eq_none_iff.mpr (absent (Option.map_eq_none_iff.mp plain))

theorem candidates_unqualified (ws : Workspace) (use : r.kind ≠ .importPath) (plain : r.qualifier? = none) :
    r.candidates ws = (Scope.unqualifiedFiles ws r.file).flatMap fun entry => r.scopeIn ws entry.1 entry.2 := by
  rw [candidates_use use, plain, collectFrom_eq_flatMap]

theorem candidates_showsKind (use : r.kind ≠ .importPath) (plain : r.qualifier? = none) {item : Item}
    (member : item ∈ r.candidates ws) : Scope.ShowsKind item := by
  rw [candidates_unqualified ws use plain] at member
  obtain ⟨entry, _, inside⟩ := List.mem_flatMap.mp member
  rw [scopeIn_use ws use] at inside
  exact Scope.ofFile_showsKind inside

/-- The names that could stand in the place of a reference and of its twin are the same. -/
theorem sketch_candidates {m : Node} (respells : Workspace.Respells ws ws') (twins : r.node.Twins Leaf.Agrees m)
    (inhabited : r.node.start < r.node.stop) (inhabited' : m.start < m.stop) (use : r.kind ≠ .importPath)
    (plain : r.qualifier? = none) :
    (r.candidates ws).map Item.sketch = (candidates ws' ⟨r.kind, r.file, m⟩).map Item.sketch := by
  rw [candidates_unqualified ws use plain, candidates_unqualified (r := ⟨r.kind, r.file, m⟩) ws' use
    (qualifier?_twin twins plain), respells.unqualifiedFiles, List.map_flatMap, List.map_flatMap]
  refine List.flatMap_congr fun entry _ => ?_
  rw [scopeIn_use ws use, scopeIn_use (r := ⟨r.kind, r.file, m⟩) ws' use]
  exact respells.ofFile twins inhabited inhabited' entry.1 entry.2 r.filter

/-- What is first offered in the place of a reference is what its twin stands for, if that has the name. -/
theorem resolve_twin {m : Node} (respells : Workspace.Respells ws ws') (twins : r.node.Twins Leaf.Agrees m)
    (inhabited : r.node.start < r.node.stop) (inhabited' : m.start < m.stop) (use : r.kind ≠ .importPath)
    (plain : r.qualifier? = none) {before behind : List Item} {item : Item}
    (offered : r.candidates ws = before ++ item :: behind)
    (earlier : ∀ other ∈ before, other.name ≠ item.name) (declared : item.declaration.isSome = true)
    (named : m.identifierText = some item.name) :
    ∃ d, resolve ws' ⟨r.kind, r.file, m⟩ = some d ∧ d.kind = item.kind := by
  have sketches := sketch_candidates respells twins inhabited inhabited' use plain
  rw [offered, List.map_append, List.map_cons, eq_comm, List.map_eq_append_iff] at sketches
  obtain ⟨before', rest, offered', left, right⟩ := sketches
  obtain ⟨item', behind', rfl, same, _⟩ := List.map_eq_cons_iff.mp right
  obtain ⟨_, names, declarations⟩ : item'.kind = item.kind ∧ item'.name = item.name ∧
      item'.declaration.map Declaration.kind = item.declaration.map Declaration.kind := by
    simpa [Item.sketch] using same
  have earlier' : ∀ other ∈ before', other.name ≠ item'.name := by
    intro other among
    have listed := List.mem_map_of_mem (f := Item.sketch) among
    rw [left] at listed
    obtain ⟨twin, member, alike⟩ := List.mem_map.mp listed
    rw [names, ← show twin.name = other.name from congrArg (·.2.1) alike]
    exact earlier twin member
  obtain ⟨d, shown⟩ := Option.isSome_iff_exists.mp declared
  rw [shown, Option.map_some, Option.map_eq_some_iff] at declarations
  obtain ⟨d', stands, kinds⟩ := declarations
  have member : item ∈ r.candidates ws := by simp [offered]
  refine ⟨d', ?_, kinds.trans (candidates_showsKind use plain member d shown)⟩
  have plain' := qualifier?_twin twins plain
  rw [resolve_unqualified ws' (r := ⟨r.kind, r.file, m⟩) use plain', name?_use (r := ⟨r.kind, r.file, m⟩) use, named,
    Option.bind_some, ← candidates_unqualified (r := ⟨r.kind, r.file, m⟩) ws' use plain', offered', ← names]
  exact Item.find_of_first stands earlier'

end Reference

namespace Workspace

/-- One name of a file is spelled as the first item of a name that was offered there. Then it stands for
something of that name, and of the sort that the item shows. -/
theorem resolve_respelled {ws : Workspace} {id : FileId} {g h : SourceFile} {t : Token} {r : Reference}
    {offset : Nat} {before behind : List Item} {item : Item} (respelling : g.Respelling h t item.name)
    (paths : g.path = h.path) (read : g.package = g.root.packageName)
    (read' : h.package = h.root.packageName) (found : Reference.at? (ws.insert id g) id offset = some r)
    (use : r.kind ≠ .importPath) (plain : r.qualifier? = none) (touched : t.start ≤ offset ∧ offset ≤ t.stop)
    (offered : r.candidates (ws.insert id g) = before ++ item :: behind)
    (earlier : ∀ other ∈ before, other.name ≠ item.name) (declared : item.declaration.isSome = true)
    {place : Nat} (inside : t.start < place) (upTo : place ≤ t.start + item.name.utf8ByteSize) :
    ∃ r' d, Reference.at? (ws.insert id h) id place = some r' ∧
      r'.range = (t.start, t.start + item.name.utf8ByteSize) ∧
      r'.resolve (ws.insert id h) = some d ∧ d.name? = some item.name ∧ d.kind = item.kind := by
  have atHand : (ws.insert id g).file? id = some g := by simp
  have atHand' : (ws.insert id h).file? id = some h := by simp
  have member : t ∈ Token.scan g.text := by
    obtain ⟨head, tail, tokens, _⟩ := respelling.tokens
    simp [tokens]
  obtain ⟨l, leaf, named, here⟩ := Reference.identifier_at atHand found use member respelling.ident touched
  obtain ⟨⟨_, again, below⟩, isReference⟩ := Reference.at?_spec found
  cases atHand.symm.trans again
  obtain ⟨sameFile, _, refers⟩ := Reference.ofNode?_spec isReference
  have roots := respelling.twins leaf here
  obtain ⟨m, below', twins⟩ := Node.Twins.exists_of_mem_descendants roots below
  obtain ⟨l', named', spelled, start⟩ := twins.identifier_respelled named
  obtain ⟨token, _⟩ := Node.token_spec named
  obtain ⟨token', isIdent⟩ := Node.token_spec named'
  have isUse : l.parent.kind.isUse = true := by
    rw [Node.parent_of_mem_tokens token]
    exact Reference.isUse_of_referenceKind refers use
  -- The only token that is spelled in another way is in a use, so nothing that introduces a name is.
  have agrees (k k' : Leaf) (related : l.Respelled item.name k k') : k.Agrees k' := related.agrees isUse
  have packages : g.package = h.package := by rw [read, read', (roots.imp agrees).packageName_eq]
  have respells := respells_insert ws id paths (roots.imp agrees) packages
  have inhabited : r.node.start < r.node.stop := by
    have bounds := Node.bounds_of_mem_leaves (Node.mem_leaves.mpr ⟨_, Node.self_mem_descendants _, token⟩)
    have := SourceFile.start_lt_stop leaf
    omega
  have inhabited' : m.start < m.stop := by
    have bounds := Node.bounds_of_mem_leaves (Node.mem_leaves.mpr ⟨_, Node.self_mem_descendants _, token'⟩)
    have := SourceFile.start_lt_stop (Node.mem_leaves.mpr ⟨m, below', token'⟩)
    omega
  have name : m.identifierText = some item.name := by rw [Node.identifierText, named', Option.map_some, spelled]
  obtain ⟨d, resolved, kind⟩ := Reference.resolve_twin respells (twins.imp agrees) inhabited inhabited' use
    plain offered earlier declared name
  have held : (ws.insert id h).Holds ⟨id, m⟩ := ⟨h, atHand', below'⟩
  have reference : Reference.ofNode? id m = some ⟨r.kind, r.file, m⟩ := by
    rw [Reference.ofNode?, ← twins.kind_eq, refers, sameFile]
    rfl
  have stop : l'.stop = t.start + item.name.utf8ByteSize := by rw [Leaf.stop, spelled, start, here]
  have nameLeaf : (⟨r.kind, r.file, m⟩ : Reference).nameLeaf = some l' :=
    (Reference.nameLeaf_use ⟨r.kind, r.file, m⟩ use).trans named'
  refine ⟨_, d, (Reference.at?_eq held token' ?_ ?_ ?_).trans reference, ?_, resolved, ?_, kind⟩
  · rw [isIdent]
    rfl
  · rwa [start, here]
  · rwa [stop]
  · rw [Reference.range, nameLeaf]
    simp only [stop, start, here]
  · rw [(Reference.faithful_resolve _ _ d (sameFile ▸ held) resolved).2 use]
    exact (Reference.name?_use (r := ⟨r.kind, r.file, m⟩) use).trans name

/-- Texts for one path make a difference only in the file that is taken in. -/
theorem setText_eq_insert (ws : Workspace) (path : Path) :
    ∃ (id : FileId) (base : Workspace), ∀ text, ws.setText path text =
      (id, base.insert id (.ofText path.normalize text)) :=
  ⟨_, _, fun _ => rfl⟩

/-- What is offered at an offset, where a reference is found once the placeholder stands there. -/
theorem completionsAt_eq {ws scratch : Workspace} {file id : FileId} {f : SourceFile} {offset : Nat}
    {before behind : List Char} {r : Reference} (atFile : ws.file? file = some f)
    (atCursor : Completion.splitAt? offset f.text.toList = some (before, behind))
    (edited : ws.setText f.path (String.ofList (before ++ Completion.placeholder.toList ++ behind)) =
      (id, scratch))
    (found : Reference.at? scratch id offset = some r) :
    ws.completionsAt file offset = Completion.select (Completion.typed before) 0 [] (r.candidates scratch) := by
  simp only [completionsAt, atFile, atCursor, edited, found]

/-- An accepted completion stands for what was offered. The text of a file is taken with the placeholder at the
cursor, where a reference without a qualifier is found, and with a name that is offered in the place of the
identifier there. If the tokens are otherwise the same, the identifier stands for something of that name, and of
the sort that was shown. -/
theorem accepted_completion_resolves {ws scratch : Workspace} {file id : FileId} {f : SourceFile} {offset : Nat}
    {before behind : List Char} {text : String} {r : Reference} {x : Completion} {item : Item}
    {head tail : List Token} {t : Token} (atFile : ws.file? file = some f)
    (atCursor : Completion.splitAt? offset f.text.toList = some (before, behind))
    (spliced : text = String.ofList (before ++ Completion.placeholder.toList ++ behind))
    (edited : ws.setText f.path text = (id, scratch))
    (found : Reference.at? scratch id offset = some r) (plain : r.qualifier? = none)
    (offered : x ∈ ws.completionsAt file offset) (candidate : (r.candidates scratch)[x.priority]? = some item)
    (declared : item.declaration.isSome = true)
    (tokens : Token.scan text = head ++ t :: tail) (ident : t.kind = .ident)
    (touched : t.start ≤ offset ∧ offset ≤ t.stop)
    (lexed : (Token.scan (x.between head tail)).map Token.written =
      head.map Token.written ++ (.ident, x.label) :: tail.map Token.written) :
    (ws.Orderly → id = file) ∧ ∃ after, ws.setText f.path (x.between head tail) = (id, after) ∧
      ∀ place, t.start < place → place ≤ t.start + x.label.utf8ByteSize →
        ∃ r' d, Reference.at? after id place = some r' ∧
          r'.range = (t.start, t.start + x.label.utf8ByteSize) ∧
          r'.resolve after = some d ∧ d.name? = some x.label ∧ d.kind = x.kind := by
  have placed := edited
  rw [spliced] at placed
  rw [completionsAt_eq atFile atCursor placed found] at offered
  obtain ⟨earlier, first, later, candidates, rfl, _, others⟩ := Completion.mem_select offered
  obtain rfl : first = item := by
    rw [candidates] at candidate
    simpa [Completion.ofItem] using candidate
  have use : r.kind ≠ .importPath := by
    intro path
    rw [Reference.candidates, path] at candidates
    simp at candidates
  obtain ⟨number, base, texts⟩ := setText_eq_insert ws f.path
  rw [texts] at edited
  obtain ⟨rfl, rfl⟩ := Prod.mk.inj edited
  refine ⟨fun orderly => ?_, _, texts _, fun place inside upTo => ?_⟩
  · rw [← orderly.setText_fst atFile text, texts]
  have respelling : (SourceFile.ofText f.path.normalize text).Respelling
      (.ofText f.path.normalize (Completion.between _ head tail)) t first.name :=
    ⟨ident, head, tail, tokens, lexed⟩
  exact resolve_respelled respelling rfl (SourceFile.package_ofText ..) (SourceFile.package_ofText ..) found use
    plain touched candidates others declared inside upTo

/-- A file in which a name is begun. -/
def begun : Workspace :=
  (({} : Workspace).setText ⟨"/p/a.go"⟩ "package p\nvar ab = a\n").2

theorem accepted_completion_resolves_begun :
    ∃ x ∈ begun.completionsAt ⟨0⟩ 20, x.label = "ab" ∧ x.kind = .variable ∧
      ∃ after, begun.setText ⟨"/p/a.go"⟩ "package p\nvar ab = ab\n" = (⟨0⟩, after) ∧
        ∃ r d, Reference.at? after ⟨0⟩ 21 = some r ∧ r.range = (19, 21) ∧ r.resolve after = some d ∧
          d.name? = some "ab" ∧ d.kind = .variable := by
  let text := "package p\nvar ab = agoscopeCompletionPlaceholder\n"
  let scratch := (begun.setText ⟨"/p/a.go"⟩ text).2
  let t : Token := ⟨.ident, "agoscopeCompletionPlaceholder", 19⟩
  let head := (Token.scan text).take 10
  let tail := (Token.scan text).drop 11
  have atFile : (begun.file? ⟨0⟩).any (fun f =>
      f.path.text == OsText.ofString "/p/a.go" && f.text == "package p\nvar ab = a\n") = true := by decide +kernel
  have offers : ((begun.completionsAt ⟨0⟩ 20).any fun x =>
      x.label == "ab" && x.kind == .variable && x.priority == 0) = true := by decide +kernel
  have facts : ((Reference.at? scratch ⟨0⟩ 20).any fun r =>
      r.qualifier?.isNone && (r.candidates scratch)[0]?.any (·.declaration.isSome)) = true := by decide +kernel
  obtain ⟨f, found, isFile⟩ := (Option.any_eq_true _ _).mp atFile
  obtain ⟨x, offered, isOffered⟩ := List.any_eq_true.mp offers
  obtain ⟨r, here, tests⟩ := (Option.any_eq_true _ _).mp facts
  simp only [Bool.and_eq_true, beq_iff_eq] at isFile isOffered tests
  obtain ⟨item, candidate, declared⟩ := (Option.any_eq_true _ _).mp tests.2
  have path : f.path = ⟨"/p/a.go"⟩ := congrArg Path.mk isFile.1
  have tokens : Token.scan text = head ++ t :: tail := by decide +kernel
  have accepted : x.between head tail = "package p\nvar ab = ab\n" := by
    rw [Completion.between, isOffered.1.1]
    decide +kernel
  have lexed : (Token.scan (x.between head tail)).map Token.written =
      head.map Token.written ++ (.ident, x.label) :: tail.map Token.written := by
    rw [accepted, isOffered.1.1]
    decide +kernel
  have split : Completion.splitAt? 20 f.text.toList =
      some ("package p\nvar ab = a".toList, "\n".toList) := by
    rw [isFile.2]
    decide +kernel
  have edited : begun.setText f.path text = (⟨0⟩, scratch) := by
    rw [path]
    rfl
  obtain ⟨_, after, given, resolves⟩ := accepted_completion_resolves found split (by decide +kernel) edited here
    (Option.isNone_iff_eq_none.mp tests.1) offered (by rw [isOffered.2, candidate]) declared tokens rfl
    (by decide) lexed
  rw [accepted, path] at given
  refine ⟨x, offered, isOffered.1.1, isOffered.1.2, after, given, ?_⟩
  rw [isOffered.1.1, isOffered.1.2] at resolves
  exact resolves 21 (by decide) (by decide)

end Workspace

end GoNav
