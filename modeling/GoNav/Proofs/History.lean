import GoNav.Proofs.Renaming
import GoNav.Proofs.Sessions

namespace GoNav

/-! Answers that tell files by their paths -/

/-- The path of a file at hand. -/
def Workspace.pathOf? (ws : Workspace) (id : FileId) : Option Path :=
  (ws.file? id).map SourceFile.path

/-- What a name stands for, with the path of its file in the place of the number. -/
inductive Declaration.Seen where
  | node (file : Option Path) (node : Node)
  | directory (path : Path)

def Declaration.seen (ws : Workspace) : Declaration → Declaration.Seen
  | .node place => .node (ws.pathOf? place.file) place.node
  | .directory path => .directory path

def Item.seen (ws : Workspace) (item : Item) : NameKind × String × Option Declaration.Seen :=
  (item.kind, item.name, item.declaration.map (Declaration.seen ws))

def Target.seen (ws : Workspace) (target : Target) : Option (Option Path) × Target :=
  (target.file.map ws.pathOf?, { target with file := none })

namespace Workspace

/-- Where the name at a byte offset of the file at a path is declared. -/
def definitionSeen? (ws : Workspace) (path : Path) (offset : Nat) : Option (Option (Option Path) × Target) :=
  ((ws.fileId? path).bind (ws.definitionAt? · offset)).map (Target.seen ws)

/-- The names that could stand in the place of the reference at a byte offset. -/
def candidatesSeen? (ws : Workspace) (path : Path) (offset : Nat) :
    Option (List (NameKind × String × Option Declaration.Seen)) :=
  ((ws.fileId? path).bind (Reference.at? ws · offset)).map fun r => (r.candidates ws).map (Item.seen ws)

/-- The names that could stand at a byte offset and start as typed there. -/
def completionsSeen? (ws : Workspace) (path : Path) (offset : Nat) : Option (List Completion) :=
  (ws.fileId? path).map (ws.completionsAt · offset)

/-- What is declared or referred to at a byte offset. -/
def meantSeen? (ws : Workspace) (path : Path) (offset : Nat) : Option Declaration.Seen :=
  ((ws.fileId? path).bind fun id => (ws.referencesAt id offset).declaration).map (Declaration.seen ws)

/-- The places of all references to what is declared or referred to at a byte offset. -/
def placesSeen (ws : Workspace) (path : Path) (offset : Nat) : List (Option Path × (Nat × Nat)) :=
  ((ws.fileId? path).toList.flatMap fun id => (ws.referencesAt id offset).places).map fun place =>
    (ws.pathOf? place.1, place.2)

namespace Renames

variable {ρ : FileId → FileId} {ws ws' : Workspace} (renames : Renames ρ ws ws')
include renames

theorem pathOf? (id : FileId) : ws'.pathOf? (ρ id) = ws.pathOf? id := by
  rw [Workspace.pathOf?, renames.file?, Workspace.pathOf?]

theorem declarationSeen (d : Declaration) : (d.rename ρ).seen ws' = d.seen ws := by
  cases d with
  | node place => simp only [Declaration.rename, FileNode.rename, Declaration.seen, renames.pathOf?]
  | directory path => rfl

theorem itemSeen (item : Item) : (item.rename ρ).seen ws' = item.seen ws := by
  simp [Item.seen, Item.rename, Function.comp_def, renames.declarationSeen]

theorem targetSeen (target : Target) : (target.rename ρ).seen ws' = target.seen ws := by
  simp [Target.seen, Target.rename, Function.comp_def, renames.pathOf?]

theorem definitionSeen? (path : Path) (offset : Nat) :
    ws'.definitionSeen? path offset = ws.definitionSeen? path offset := by
  rw [Workspace.definitionSeen?, Workspace.definitionSeen?, renames.fileId?]
  cases ws.fileId? path with
  | none => simp only [Option.map_none, Option.bind_none]
  | some id =>
    simp only [Option.map_some, Option.bind_some, renames.definitionAt?, Option.map_map, Function.comp_def,
      renames.targetSeen]

theorem candidatesSeen? (path : Path) (offset : Nat) :
    ws'.candidatesSeen? path offset = ws.candidatesSeen? path offset := by
  rw [Workspace.candidatesSeen?, Workspace.candidatesSeen?, renames.fileId?]
  cases ws.fileId? path with
  | none => simp only [Option.map_none, Option.bind_none]
  | some id =>
    simp only [Option.map_some, Option.bind_some, renames.at?, Option.map_map, Function.comp_def,
      renames.candidates, List.map_map, renames.itemSeen]

theorem meantSeen? (path : Path) (offset : Nat) :
    ws'.meantSeen? path offset = ws.meantSeen? path offset := by
  rw [Workspace.meantSeen?, Workspace.meantSeen?, renames.fileId?]
  cases ws.fileId? path with
  | none => simp only [Option.map_none, Option.bind_none]
  | some id =>
    simp only [Option.map_some, Option.bind_some, (renames.referencesAt id offset).1, Option.map_map,
      Function.comp_def, renames.declarationSeen]

theorem placesSeen (path : Path) (offset : Nat) :
    (ws'.placesSeen path offset).Perm (ws.placesSeen path offset) := by
  rw [Workspace.placesSeen, Workspace.placesSeen, renames.fileId?]
  cases ws.fileId? path with
  | none => simp only [Option.map_none, Option.toList_none, List.flatMap_nil, List.map_nil, List.Perm.refl]
  | some id =>
    simp only [Option.map_some, Option.toList_some, List.flatMap_singleton]
    refine ((renames.referencesAt id offset).2.map _).trans (.of_eq ?_)
    simp only [List.map_map, Function.comp_def, renames.pathOf?]

end Renames

end Workspace

theorem Completion.select_rename (ρ : FileId → FileId) (start : List Char) (place : Nat)
    (seen : List String) (items : List Item) :
    select start place seen (items.map (Item.rename ρ)) = select start place seen items := by
  have same : ∀ place item, ofItem place (Item.rename ρ item) = ofItem place item := by
    intro place item
    cases declared : item.declaration with
    | none => simp [ofItem, Item.rename, declared]
    | some d => simp [ofItem, Item.rename, declared, Declaration.type?_rename, Function.comp_def]
  induction items generalizing place seen with
  | nil => rfl
  | cons item rest ih => simp only [List.map_cons, select, ih, same, Item.name_rename]

/-! Workspaces with the same texts -/

namespace Workspace

/-- Workspaces in good order that agree in the configuration and in the texts at hand. -/
structure Alike (ws ws' : Workspace) : Prop where
  left : ws.Orderly
  right : ws'.Orderly
  config : ws'.config = ws.config
  texts : ∀ path, ws'.textAt? path = ws.textAt? path

/-- The number that a file of the first workspace has in the second. A number without a file gets one
that no path has there. -/
def numberIn (ws ws' : Workspace) (id : FileId) : FileId :=
  ((ws.file? id).bind fun f => ws'.fileId? f.path).getD ⟨ws'.fileSet.size + id.number⟩

namespace Alike

variable {ws ws' : Workspace} {id id' : FileId} {f : SourceFile} (alike : Alike ws ws')
include alike

theorem symm : Alike ws' ws :=
  ⟨alike.right, alike.left, alike.config.symm, fun path => (alike.texts path).symm⟩

theorem setText (path : Path) (text : String) : Alike (ws.setText path text).2 (ws'.setText path text).2 where
  left := alike.left.setText path text
  right := alike.right.setText path text
  config := alike.config
  texts other := by rw [alike.left.textAt?_setText, alike.right.textAt?_setText, alike.texts]

theorem exists_mem (member : (id, f) ∈ ws.files) : ∃ id', (id', f) ∈ ws'.files := by
  have read := alike.left.read _ member
  have text := (alike.texts f.path).trans (alike.left.textAt?_of_mem member)
  obtain ⟨id', found⟩ := alike.right.textAt?_eq_some_iff.mp text
  rw [read.normalize_path, ← read.eq_ofText] at found
  exact ⟨id', found⟩

theorem numberIn_eq (member : (id, f) ∈ ws.files) (found : (id', f) ∈ ws'.files) : numberIn ws ws' id = id' := by
  have atPath : ws'.fileId? f.path = some id' :=
    alike.right.fileId?_eq_some_iff.mpr ⟨f, found, (alike.left.read _ member).normalize_path.symm⟩
  rw [numberIn, file?_of_mem_files member, Option.bind_some, atPath, Option.getD_some]

theorem mem_numberIn (member : (id, f) ∈ ws.files) : (numberIn ws ws' id, f) ∈ ws'.files := by
  obtain ⟨id', found⟩ := alike.exists_mem member
  rwa [alike.numberIn_eq member found]

theorem numberIn_lt_iff (id : FileId) :
    (numberIn ws ws' id).number < ws'.fileSet.size ↔ ∃ f, (id, f) ∈ ws.files := by
  constructor
  · intro small
    cases found : ws.file? id with
    | some f => exact ⟨f, mem_files_of_file? found⟩
    | none =>
      rw [numberIn, found, Option.bind_none, Option.getD_none] at small
      exact absurd small (by simp)
  · rintro ⟨f, member⟩
    exact FileSet.number_lt_size (alike.right.numbered _ (alike.mem_numberIn member))

theorem numberIn_injective : Function.Injective (numberIn ws ws') := by
  intro a b same
  have both : (∃ f, (a, f) ∈ ws.files) ↔ ∃ f, (b, f) ∈ ws.files := by
    rw [← alike.numberIn_lt_iff, same, alike.numberIn_lt_iff]
  cases atA : ws.file? a with
  | some f =>
    obtain ⟨g, memberB⟩ := both.mp ⟨f, mem_files_of_file? atA⟩
    have movedA := alike.mem_numberIn (mem_files_of_file? atA)
    rw [same] at movedA
    cases (file?_of_mem_files movedA).symm.trans (file?_of_mem_files (alike.mem_numberIn memberB))
    exact alike.left.eq_of_path_beq (mem_files_of_file? atA) memberB (Path.beq_iff_components.mpr rfl)
  | none =>
    cases atB : ws.file? b with
    | some g =>
      obtain ⟨f, memberA⟩ := both.mpr ⟨g, mem_files_of_file? atB⟩
      cases atA.symm.trans (file?_of_mem_files memberA)
    | none =>
      simp only [numberIn, atA, atB, Option.bind_none, Option.getD_none, FileId.mk.injEq] at same
      exact congrArg FileId.mk (Nat.add_left_cancel same)

/-- Workspaces that are alike differ in the numbers of their files and in the order of these, and in
nothing else that matters. -/
theorem renames : Renames (numberIn ws ws') ws ws' where
  injective := alike.numberIn_injective
  config := alike.config
  files := by
    have injective : Function.Injective fun entry : FileId × SourceFile => (numberIn ws ws' entry.1, entry.2) := by
      intro a b same
      obtain ⟨numbers, sources⟩ := Prod.mk.inj same
      exact Prod.ext (alike.numberIn_injective numbers) sources
    have distinct := (List.Nodup.of_map Prod.fst ws.distinct).map injective
    -- no entry is there twice on either side, so it is enough that both have the same ones
    refine (List.perm_ext_iff_of_nodup (List.Nodup.of_map Prod.fst ws'.distinct) distinct).mpr fun entry => ?_
    rw [List.mem_map]
    constructor
    · intro member
      obtain ⟨id, found⟩ := alike.symm.exists_mem member
      exact ⟨(id, entry.2), found, Prod.ext (alike.numberIn_eq found member) rfl⟩
    · rintro ⟨⟨id, f⟩, member, rfl⟩
      exact alike.mem_numberIn member
  apart := (List.pairwise_map.mp ws.distinct).imp_of_mem fun here there different same =>
    different (alike.left.eq_of_path_beq here there same)
  fileId? := by
    intro path
    refine Option.ext fun id' => ?_
    rw [alike.right.fileId?_eq_some_iff, Option.map_eq_some_iff]
    constructor
    · rintro ⟨f, member, same⟩
      obtain ⟨id, found⟩ := alike.symm.exists_mem member
      exact ⟨id, alike.left.fileId?_eq_some_iff.mpr ⟨f, found, same⟩, alike.numberIn_eq found member⟩
    · rintro ⟨id, atPath, rfl⟩
      obtain ⟨f, member, same⟩ := alike.left.fileId?_eq_some_iff.mp atPath
      exact ⟨f, alike.mem_numberIn member, same⟩

/-- The scratch copies of two workspaces, in which a name is put in at the cursor, differ no more than
the workspaces do. -/
theorem completionsAt (member : (id, f) ∈ ws.files) (offset : Nat) :
    ws'.completionsAt (numberIn ws ws' id) offset = ws.completionsAt id offset := by
  have here := file?_of_mem_files member
  have there := file?_of_mem_files (alike.mem_numberIn member)
  simp only [Workspace.completionsAt, here, there]
  cases Completion.splitAt? offset f.text.toList with
  | none => rfl
  | some parts =>
    obtain ⟨before, behind⟩ := parts
    dsimp only
    generalize String.ofList (before ++ Completion.placeholder.toList ++ behind) = text
    -- the copies are alike again, under a renaming of their own
    have renames := (alike.setText f.path text).renames
    have moved := renames.fileId? f.path
    rw [alike.left.fileId?_setText, alike.right.fileId?_setText, Option.map_some, Option.some.injEq] at moved
    simp only [moved, renames.at?]
    cases Reference.at? (ws.setText f.path text).2 (ws.setText f.path text).1 offset with
    | none => rfl
    | some r => simp only [Option.map_some, renames.candidates, Completion.select_rename]

theorem completionsSeen? (path : Path) (offset : Nat) :
    ws'.completionsSeen? path offset = ws.completionsSeen? path offset := by
  rw [Workspace.completionsSeen?, alike.renames.fileId?, Workspace.completionsSeen?, Option.map_map]
  refine Option.map_congr fun id atPath => ?_
  obtain ⟨f, member, _⟩ := alike.left.fileId?_eq_some_iff.mp atPath
  exact alike.completionsAt member offset

end Alike

/-- Of the history of a workspace nothing shows but the configuration and the texts that it ends with.
Asked at the same place, two workspaces that agree in these name the same definition, the same candidates
and completions in the same order, and the same references in some order, where each file is told by its
path. In what order files came and who read them, what they held before, which others were there and
what numbers they have cannot be seen. -/
theorem history_unobservable {ws ws' : Workspace} (first : ws.Reached) (second : ws'.Reached)
    (config : ws'.config = ws.config) (texts : ∀ path, ws'.textAt? path = ws.textAt? path)
    (path : Path) (offset : Nat) :
    ws'.definitionSeen? path offset = ws.definitionSeen? path offset ∧
      ws'.candidatesSeen? path offset = ws.candidatesSeen? path offset ∧
      ws'.completionsSeen? path offset = ws.completionsSeen? path offset ∧
      ws'.meantSeen? path offset = ws.meantSeen? path offset ∧
      (ws'.placesSeen path offset).Perm (ws.placesSeen path offset) := by
  have alike : Alike ws ws' := ⟨first.orderly, second.orderly, config, texts⟩
  have renames := alike.renames
  exact ⟨renames.definitionSeen? path offset, renames.candidatesSeen? path offset,
    alike.completionsSeen? path offset, renames.meantSeen? path offset, renames.placesSeen path offset⟩

/-- Two files of a package, given one after the other. -/
def straight : Workspace :=
  let first := (({} : Workspace).setText ⟨"/p/a.go"⟩ "package p\nvar a = b\n").2
  (first.setText ⟨"/p/b.go"⟩ "package p\nvar b = a\n").2

/-- The same files, given the other way round, with an earlier version of one and a third file that does
not stay. -/
def roundabout : Workspace :=
  let first := (({} : Workspace).setText ⟨"/p/c.go"⟩ "package p\nvar a = 1\n").2
  let second := (first.setText ⟨"/p/./b.go"⟩ "package p\nvar a = b\n").2
  let third := (second.setText ⟨"/p/b.go"⟩ "package p\nvar b = a\n").2
  let fourth := (third.setText ⟨"/p/q/../a.go"⟩ "package p\nvar a = b\n").2
  (fourth.remove ⟨"/p/c.go"⟩).2

theorem reached_straight : straight.Reached :=
  ⟨{}, [.setText _ _, .setText _ _], .next (.alone ..) (.next (.alone ..) (.done _))⟩

theorem reached_roundabout : roundabout.Reached :=
  ⟨{}, [.setText _ _, .setText _ _, .setText _ _, .setText _ _, .remove _], .next (.alone ..) (.next (.alone ..)
    (.next (.alone ..) (.next (.alone ..) (.next (.alone ..) (.done _)))))⟩

theorem textAt?_roundabout (path : Path) : roundabout.textAt? path = straight.textAt? path := by
  have start := orderly_empty {}
  have a : (Path.mk "/p/a.go").normalize.text = "/p/a.go" := by decide +kernel
  have b : (Path.mk "/p/b.go").normalize.text = "/p/b.go" := by decide +kernel
  have c : (Path.mk "/p/c.go").normalize.text = "/p/c.go" := by decide +kernel
  have throughSelf : (Path.mk "/p/./b.go").normalize.text = "/p/b.go" := by decide +kernel
  have throughParent : (Path.mk "/p/q/../a.go").normalize.text = "/p/a.go" := by decide +kernel
  simp only [roundabout, straight]
  rw [((((start.setText _ _).setText _ _).setText _ _).setText _ _).textAt?_remove,
    (((start.setText _ _).setText _ _).setText _ _).textAt?_setText,
    ((start.setText _ _).setText _ _).textAt?_setText, (start.setText _ _).textAt?_setText,
    start.textAt?_setText, (start.setText _ _).textAt?_setText, start.textAt?_setText,
    a, b, c, throughSelf, throughParent]
  have empty : Workspace.textAt? {} path = none := rfl
  rw [empty]
  grind [OsText.ofString_inj]

theorem history_unobservable_roundabout :
    straight.fileId? ⟨"/p/a.go"⟩ = some ⟨0⟩ ∧ roundabout.fileId? ⟨"/p/a.go"⟩ = some ⟨2⟩ ∧
      (straight.definitionSeen? ⟨"/p/a.go"⟩ 18).isSome = true ∧
      roundabout.definitionSeen? ⟨"/p/a.go"⟩ 18 = straight.definitionSeen? ⟨"/p/a.go"⟩ 18 ∧
      (roundabout.placesSeen ⟨"/p/a.go"⟩ 18).Perm (straight.placesSeen ⟨"/p/a.go"⟩ 18) := by
  have answers := history_unobservable reached_straight reached_roundabout rfl textAt?_roundabout
    ⟨"/p/a.go"⟩ 18
  exact ⟨by decide +kernel, by decide +kernel, by decide +kernel, answers.1, answers.2.2.2.2⟩

end Workspace

end GoNav
