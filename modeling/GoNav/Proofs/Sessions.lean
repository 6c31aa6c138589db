import GoNav.Proofs.Upkeep

namespace GoNav

/-! Sets of normal paths -/

namespace FileSet

variable {s : FileSet} {p : Path} {id : FileId}

/-- All paths in the set are spelled in their normal form. -/
def IsNormal (s : FileSet) : Prop :=
  ∀ p ∈ s.paths, p.normalize = p

theorem IsNormal.assign (normal : s.IsNormal) (own : p.normalize = p) : (s.assign p).2.IsNormal := by
  cases known : s.get? p with
  | some id => rwa [assign_of_get? known]
  | none =>
    intro q member
    rw [paths_assign_of_get?_eq_none known] at member
    rcases List.mem_append.mp member with old | new
    · exact normal q old
    · exact List.mem_singleton.mp new ▸ own

theorem IsNormal.foldl_assign {files : List SourceFile} (normal : s.IsNormal)
    (own : ∀ f ∈ files, f.path.normalize = f.path) :
    (files.foldl (fun s f => (s.assign f.path).2) s).IsNormal := by
  induction files generalizing s with
  | nil => exact normal
  | cons f rest ih =>
    exact ih (normal.assign (own f (List.mem_cons_self ..)))
      fun g member => own g (List.mem_cons_of_mem f member)

/-- A normal path stands under its number as it is spelled. -/
theorem IsNormal.path?_of_get? (normal : s.IsNormal) (own : p.normalize = p) (found : s.get? p = some id) :
    s.path? id = some p := by
  obtain ⟨bound, same, _⟩ := List.findIdx?_eq_some_iff_getElem.mp (get?_eq_some_iff.mp found)
  have stored := normal _ (List.getElem_mem bound)
  rw [← stored, ← own] at same
  have equal := Path.normalize_eq_of_beq same
  rw [stored, own] at equal
  exact (s.aligned.path?_eq id).trans ((List.getElem?_eq_getElem bound).trans (congrArg some equal))

end FileSet

namespace Workspace

/-! Putting one file in its place -/

section Put

variable {id : FileId} {f : SourceFile} {files : List (FileId × SourceFile)}

/-- Of the files that have another number none changes its data or its place among the others. -/
theorem filter_putEntry {keep : FileId × SourceFile → Bool} (new : keep (id, f) = false)
    (old : ∀ entry ∈ files, entry.1 = id → keep entry = false) :
    (putEntry id f files).filter keep = files.filter keep := by
  induction files with
  | nil => simp [putEntry, new]
  | cons entry rest ih =>
    have later := ih fun other member => old other (List.mem_cons_of_mem entry member)
    rw [putEntry]
    split
    · rename_i same
      obtain rfl := eq_of_beq same
      rw [List.filter_cons_of_neg (by simp [new]), List.filter_cons_of_neg]
      simp [old entry (List.mem_cons_self ..) rfl]
    · simp only [List.filter_cons, later]

/-- A file that is replaced keeps its place, and a new one comes behind all others. -/
theorem map_fst_putEntry :
    (putEntry id f files).map Prod.fst =
      if id ∈ files.map Prod.fst then files.map Prod.fst else files.map Prod.fst ++ [id] := by
  induction files with
  | nil => rfl
  | cons entry rest ih =>
    rw [putEntry]
    by_cases same : id = entry.1
    · simp [same]
    · simp only [beq_iff_eq, same, if_false, List.map_cons, ih, List.mem_cons, false_or]
      split <;> rfl

theorem putEntry_of_not_mem (fresh : id ∉ files.map Prod.fst) : putEntry id f files = files ++ [(id, f)] := by
  refine putEntry_of_lookup_eq_none (List.lookup_eq_none_iff.mpr fun entry member => ?_)
  exact bne_iff_ne.mpr fun same => fresh (same ▸ List.mem_map_of_mem member)

end Put

/-! Taking in files one after the other -/

/-- Files are taken in one after the other, each under the number that its path has. -/
inductive TakesIn : Workspace → List SourceFile → Workspace → Prop
  | nothing (ws : Workspace) : TakesIn ws [] ws
  | file {ws ws' : Workspace} {id : FileId} {f : SourceFile} {rest : List SourceFile} :
      ws.fileSet.get? f.path = some id → f.IsRead → TakesIn (ws.insert id f) rest ws' →
      TakesIn ws (f :: rest) ws'

theorem TakesIn.foldl {ws : Workspace} {s : FileSet} {files : List SourceFile} (own : s = ws.fileSet)
    (read : ∀ f ∈ files, f.IsRead) (numbered : ∀ f ∈ files, ∃ id, s.get? f.path = some id) :
    TakesIn ws files (files.foldl (fun ws f => ws.insert (s.assign f.path).1 f) ws) := by
  induction files generalizing ws with
  | nil => exact .nothing ws
  | cons f rest ih =>
    obtain ⟨id, found⟩ := numbered f (List.mem_cons_self ..)
    rw [List.foldl_cons, FileSet.assign_of_get? found]
    exact .file (own ▸ found) (read f (List.mem_cons_self ..))
      (ih own (fun g member => read g (List.mem_cons_of_mem f member))
        fun g member => numbered g (List.mem_cons_of_mem f member))

/-- Takes in files that are read, after all of them have got their numbers in some order. They get them
from those who read them, who may do so all at once. -/
def takeInBy (ws : Workspace) (order files : List SourceFile) : Workspace :=
  let fileSet := order.foldl (fun s f => (s.assign f.path).2) ws.fileSet
  files.foldl (fun ws f => ws.insert (fileSet.assign f.path).1 f) { ws with fileSet }

/-- Whoever gave out the numbers, and in whatever order, the files are taken in under them. -/
theorem takesIn_takeInBy (ws : Workspace) {order files : List SourceFile} (perm : order.Perm files)
    (read : ∀ f ∈ files, f.IsRead) :
    TakesIn { ws with fileSet := order.foldl (fun s f => (s.assign f.path).2) ws.fileSet } files
      (ws.takeInBy order files) :=
  .foldl rfl read fun _ member => FileSet.exists_get?_foldl_assign (perm.mem_iff.mpr member) ws.fileSet

namespace TakesIn

variable {ws ws' : Workspace} {files : List SourceFile}

theorem fileSet_eq (taken : TakesIn ws files ws') : ws'.fileSet = ws.fileSet := by
  induction taken with
  | nothing => rfl
  | file _ _ _ ih => exact ih

theorem orderly (taken : TakesIn ws files ws') (orderly : ws.Orderly) : ws'.Orderly := by
  induction taken with
  | nothing => exact orderly
  | file found read _ ih => exact ih (orderly.insert read found)

/-- Files that are there keep their places, and new ones come behind them. -/
theorem places (taken : TakesIn ws files ws') : ws.files.map Prod.fst <+: ws'.files.map Prod.fst := by
  induction taken with
  | nothing => exact List.prefix_rfl
  | @file ws _ id f _ _ _ _ ih =>
    refine List.IsPrefix.trans ?_ ih
    rw [insert, map_fst_putEntry]
    split
    · exact List.prefix_rfl
    · exact List.prefix_append ..

/-- Files at other paths keep their data and their order. -/
theorem filter_eq (taken : TakesIn ws files ws') (orderly : ws.Orderly) {keep : FileId × SourceFile → Bool}
    (given : ∀ f ∈ files, ∀ entry : FileId × SourceFile, entry.2.path = f.path → keep entry = false) :
    ws'.files.filter keep = ws.files.filter keep := by
  induction taken with
  | nothing => rfl
  | @file ws _ id f rest found read _ ih =>
    have first := given f (List.mem_cons_self ..)
    refine (ih (orderly.insert read found) fun g member => given g (List.mem_cons_of_mem f member)).trans ?_
    refine filter_putEntry (first _ rfl) fun entry member same => first entry ?_
    have numbered : ws.fileSet.get? f.path.normalize = some entry.1 := by
      rw [read.normalize_path, found, same]
    exact (orderly.path_eq_of_number member numbered).trans read.normalize_path

theorem textAt?_eq (taken : TakesIn ws files ws') (orderly : ws.Orderly) (path : Path) :
    ws'.textAt? path =
      files.foldl (fun text f => if path.normalize.text = f.path.text then some f.text else text)
        (ws.textAt? path) := by
  induction taken with
  | nothing => rfl
  | file found read _ ih =>
    rw [ih (orderly.insert read found), orderly.textAt?_insert read found, List.foldl_cons]

end TakesIn

/-! Operations of a host -/

/-- What a host asks of its workspace. -/
inductive Operation where
  | setText (path : Path) (text : String)
  | remove (path : Path)
  | setConfig (config : Config)
  | loadFile (disk : Disk) (path : Path)
  | loadDirectory (disk : Disk) (tests : Bool) (path : Path)

namespace Operation

/-- Does an operation. One that fails leaves the workspace as it is. -/
def apply (op : Operation) (ws : Workspace) : Workspace :=
  match op with
  | .setText path text => (ws.setText path text).2
  | .remove path => (ws.remove path).2
  | .setConfig config => { ws with config }
  | .loadFile disk path => ((ws.loadFile disk path).toOption.map Prod.snd).getD ws
  | .loadDirectory disk tests path => ((ws.loadDirectory disk tests path).toOption.map Prod.snd).getD ws

/-- The files that an operation takes in. -/
def given : Operation → List SourceFile
  | .setText path text => [.ofText path.normalize text]
  | .remove _ => []
  | .setConfig _ => []
  | .loadFile disk path => (Loading.readSource disk path).toOption.toList
  | .loadDirectory disk tests path =>
    if disk.hasDirectory path then
      ((Loading.sourcePaths disk tests path).toOption.getD []).filterMap fun p =>
        (Loading.readSource disk p).toOption
    else []

/-- The path of the file that an operation takes away. -/
def removed? : Operation → Option Path
  | .remove path => some path.normalize
  | _ => none

/-- Whether an operation is about the file at a path. -/
def concerns (op : Operation) (path : Path) : Bool :=
  op.removed?.any (·.text == path.text) || op.given.any (·.path.text == path.text)

/-- The text at a path after an operation, if it was the given one before. -/
def textAfter (op : Operation) (path : Path) (text : Option String) : Option String :=
  if op.removed?.any (·.text == path.normalize.text) then none
  else op.given.foldl (fun text f => if path.normalize.text = f.path.text then some f.text else text) text

/-- An operation as it may come out. The files of a directory are read all at once, and those who read
them get the numbers in any order. -/
inductive Takes : Operation → Workspace → Workspace → Prop
  | alone (op : Operation) (ws : Workspace) : Takes op ws (op.apply ws)
  | atOnce {disk : Disk} {tests : Bool} {path : Path} {order : List SourceFile} (ws : Workspace) :
      order.Perm (loadDirectory disk tests path).given →
      Takes (.loadDirectory disk tests path) ws (ws.takeInBy order (loadDirectory disk tests path).given)

/-- What an operation does: it takes a file away, or it configures, or all the files that it gives get their
numbers and are then taken in. -/
inductive Does : Operation → Workspace → Workspace → Prop
  | remove (ws : Workspace) (path : Path) : Does (.remove path) ws (ws.remove path).2
  | setConfig (ws : Workspace) (config : Config) : Does (.setConfig config) ws { ws with config }
  | takeIn {op : Operation} {ws ws' : Workspace} {order : List SourceFile} : op.removed? = none →
      order.Perm op.given →
      TakesIn { ws with fileSet := order.foldl (fun s f => (s.assign f.path).2) ws.fileSet } op.given ws' →
      Does op ws ws'

theorem isRead_of_mem_given {op : Operation} {f : SourceFile} (member : f ∈ op.given) : f.IsRead := by
  have ofRead {disk : Disk} {p : Path} (read : (Loading.readSource disk p).toOption = some f) : f.IsRead := by
    cases done : Loading.readSource disk p with
    | error e =>
      rw [done] at read
      cases read
    | ok g =>
      rw [done] at read
      cases read
      exact .of_readSource done
  cases op with
  | setText path text => exact List.mem_singleton.mp member ▸ ⟨path, text, rfl⟩
  | remove path => cases member
  | setConfig config => cases member
  | loadFile disk path => exact ofRead (Option.mem_toList.mp member)
  | loadDirectory disk tests path =>
    rw [given] at member
    split at member
    · obtain ⟨p, _, read⟩ := List.mem_filterMap.mp member
      exact ofRead read
    · cases member

/-- One file gets its number and is taken in. -/
theorem Does.ofOne {op : Operation} (ws : Workspace) {f : SourceFile} (given : op.given = [f])
    (only : op.removed? = none) :
    Does op ws ({ ws with fileSet := (ws.fileSet.assign f.path).2 }.insert (ws.fileSet.assign f.path).1 f) := by
  have read : f.IsRead := isRead_of_mem_given (given ▸ List.mem_singleton_self f)
  refine .takeIn only (.refl _) ?_
  rw [given]
  exact .file (ws.fileSet.get?_assign f.path) read (.nothing _)

theorem Does.ofAll {op : Operation} (ws : Workspace) {order : List SourceFile} (perm : order.Perm op.given)
    (only : op.removed? = none) : Does op ws (ws.takeInBy order op.given) :=
  .takeIn only perm (takesIn_takeInBy ws perm fun _ member => isRead_of_mem_given member)

theorem Takes.does {op : Operation} {ws ws' : Workspace} (taken : op.Takes ws ws') : op.Does ws ws' := by
  cases taken with
  | atOnce _ perm => exact .ofAll ws perm rfl
  | alone =>
    cases op with
    | setText path text => exact .ofOne (f := .ofText path.normalize text) ws rfl rfl
    | remove path => exact .remove ws path
    | setConfig config => exact .setConfig ws config
    | loadFile disk path =>
      rw [apply, Workspace.loadFile]
      cases read : Loading.readSource disk path with
      | error e =>
        have none : (Operation.loadFile disk path).given = [] := by rw [given, read]; rfl
        exact .takeIn rfl (.refl _) (none ▸ .nothing ws)
      | ok f => exact .ofOne ws (by rw [given, read]; rfl) rfl
    | loadDirectory disk tests path =>
      have all : (loadDirectory disk tests path).apply ws =
          ws.takeInBy (loadDirectory disk tests path).given (loadDirectory disk tests path).given := by
        rw [apply, Workspace.loadDirectory, given]
        split
        · cases Loading.sourcePaths disk tests path <;> rfl
        · rfl
      exact all ▸ .ofAll ws (.refl _) rfl

namespace Does

variable {op : Operation} {ws ws' : Workspace}

theorem extends_fileSet (done : op.Does ws ws') : ws.fileSet.Extends ws'.fileSet := by
  cases done with
  | remove path =>
    unfold Workspace.remove
    split <;> exact fun _ _ found => found
  | setConfig => exact fun _ _ found => found
  | @takeIn _ _ _ order _ _ taken => exact taken.fileSet_eq ▸ FileSet.extends_foldl_assign order ws.fileSet

theorem isNormal (done : op.Does ws ws') (normal : ws.fileSet.IsNormal) : ws'.fileSet.IsNormal := by
  cases done with
  | remove path =>
    unfold Workspace.remove
    split <;> exact normal
  | setConfig => exact normal
  | takeIn _ perm taken =>
    rw [taken.fileSet_eq]
    exact normal.foldl_assign fun f member => (isRead_of_mem_given (perm.mem_iff.mp member)).normalize_path

theorem orderly (done : op.Does ws ws') (orderly : ws.Orderly) : ws'.Orderly := by
  cases done with
  | remove _ path => exact orderly.remove path
  | setConfig => exact ⟨orderly.read, orderly.numbered⟩
  | @takeIn _ _ _ order _ _ taken =>
    exact taken.orderly (orderly.extend (FileSet.extends_foldl_assign order ws.fileSet))

theorem textAt?_eq (done : op.Does ws ws') (orderly : ws.Orderly) (path : Path) :
    ws'.textAt? path = op.textAfter path (ws.textAt? path) := by
  cases done with
  | remove gone =>
    rw [orderly.textAt?_remove, textAfter]
    simp only [removed?, given, List.foldl_nil, Option.any_some, beq_iff_eq]
    exact if_congr eq_comm rfl rfl
  | setConfig => rfl
  | @takeIn _ _ _ order only _ taken =>
    have extended := FileSet.extends_foldl_assign order ws.fileSet
    rw [taken.textAt?_eq (orderly.extend extended), orderly.textAt?_extend extended, textAfter, only]
    rfl

/-- An operation leaves files that it is not about as they are, and in their order. -/
theorem filter_eq (done : op.Does ws ws') (orderly : ws.Orderly) :
    ws'.files.filter (!op.concerns ·.2.path) = ws.files.filter (!op.concerns ·.2.path) := by
  cases done with
  | remove path =>
    rw [orderly.files_remove, List.filter_filter]
    refine List.filter_congr fun entry _ => ?_
    simp only [concerns, removed?, given, Option.any_some, List.any_nil, Bool.or_false, bne]
    rw [BEq.comm, Bool.and_self]
  | setConfig => rfl
  | @takeIn _ _ _ order only _ taken =>
    have extended := FileSet.extends_foldl_assign order ws.fileSet
    refine taken.filter_eq (orderly.extend extended) fun f member entry same => ?_
    rw [Bool.not_eq_false', concerns, Bool.or_eq_true]
    exact Or.inr (List.any_eq_true.mpr ⟨f, member, by rw [same, beq_self_eq_true]⟩)

/-- Files keep their places unless one is taken away, and those that are new come behind them. -/
theorem places (done : op.Does ws ws') (orderly : ws.Orderly) (only : op.removed? = none) :
    ∃ new, ws'.files.map Prod.fst = ws.files.map Prod.fst ++ new ∧
      ∀ id ∈ new, ∃ f ∈ op.given, ws.fileId? f.path = none ∧ ws'.fileId? f.path = some id := by
  have front : ws.files.map Prod.fst <+: ws'.files.map Prod.fst := by
    cases done with
    | remove => cases only
    | setConfig => exact List.prefix_rfl
    | takeIn _ _ taken => exact taken.places
  obtain ⟨new, same⟩ := front
  refine ⟨new, same.symm, fun id member => ?_⟩
  have later := done.orderly orderly
  have fresh : id ∉ ws.files.map Prod.fst := fun old =>
    List.disjoint_of_nodup_append (same ▸ ws'.distinct) old member
  obtain ⟨entry, here, rfl⟩ := List.mem_map.mp (same ▸ List.mem_append_right _ member)
  -- A file that the operation is not about was there before.
  have concerned : op.concerns entry.2.path = true := by
    by_contra other
    have kept : entry ∈ ws'.files.filter (!op.concerns ·.2.path) :=
      List.mem_filter.mpr ⟨here, by simpa using other⟩
    rw [done.filter_eq orderly] at kept
    exact fresh (List.mem_map_of_mem (List.mem_filter.mp kept).1)
  obtain ⟨f, given, paths⟩ : ∃ f ∈ op.given, f.path = entry.2.path := by
    rw [concerns, only, Option.any_none, Bool.false_or] at concerned
    obtain ⟨f, given, texts⟩ := List.any_eq_true.mp concerned
    exact ⟨f, given, congrArg Path.mk (eq_of_beq texts)⟩
  have normal := (isRead_of_mem_given given).normalize_path
  refine ⟨f, given, ?_, later.fileId?_eq_some_iff.mpr ⟨entry.2, here, by rw [normal, paths]⟩⟩
  refine Option.eq_none_iff_forall_ne_some.mpr fun old found => fresh ?_
  obtain ⟨g, member, path⟩ := orderly.fileId?_eq_some_iff.mp found
  have before := done.extends_fileSet _ _ (orderly.numbered _ member)
  rw [path, normal, paths, later.numbered entry here] at before
  exact Option.some.inj before ▸ List.mem_map_of_mem member

end Does

end Operation

/-! Sessions -/

/-- Operations one after the other. -/
inductive Run : Workspace → List Operation → Workspace → Prop
  | done (ws : Workspace) : Run ws [] ws
  | next {ws mid ws' : Workspace} {op : Operation} {rest : List Operation} :
      op.Takes ws mid → Run mid rest ws' → Run ws (op :: rest) ws'

namespace Run

variable {ws ws' : Workspace} {ops : List Operation}

theorem extends_fileSet (run : Run ws ops ws') : ws.fileSet.Extends ws'.fileSet := by
  induction run with
  | done => exact fun _ _ found => found
  | next taken _ ih => exact fun p id found => ih p id (taken.does.extends_fileSet p id found)

theorem isNormal (run : Run ws ops ws') (normal : ws.fileSet.IsNormal) : ws'.fileSet.IsNormal := by
  induction run with
  | done => exact normal
  | next taken _ ih => exact ih (taken.does.isNormal normal)

theorem orderly (run : Run ws ops ws') (orderly : ws.Orderly) : ws'.Orderly := by
  induction run with
  | done => exact orderly
  | next taken _ ih => exact ih (taken.does.orderly orderly)

theorem textAt?_eq (run : Run ws ops ws') (orderly : ws.Orderly) (path : Path) :
    ws'.textAt? path = ops.foldl (fun text op => op.textAfter path text) (ws.textAt? path) := by
  induction run with
  | done => rfl
  | next taken _ ih => rw [ih (taken.does.orderly orderly), taken.does.textAt?_eq orderly, List.foldl_cons]

end Run

/-- A workspace to which a host comes from an empty one. -/
def Reached (ws : Workspace) : Prop :=
  ∃ config ops, Run { config } ops ws

theorem Reached.orderly {ws : Workspace} (reached : ws.Reached) : ws.Orderly := by
  obtain ⟨config, ops, run⟩ := reached
  exact run.orderly (orderly_empty config)

/-- The text that a path has got and still has after operations on an empty workspace. -/
def currentText (ops : List Operation) (path : Path) : Option String :=
  ops.foldl (fun text op => op.textAfter path text) none

/-- A workspace as it has to be after operations on an empty one. -/
structure Accords (ws : Workspace) (ops : List Operation) : Prop where
  normal : ∀ entry ∈ ws.files, entry.2.path.normalize = entry.2.path
  numbered : ∀ entry ∈ ws.files,
    ws.fileSet.get? entry.2.path = some entry.1 ∧ ws.fileSet.path? entry.1 = some entry.2.path
  apart : ∀ a ∈ ws.files, ∀ b ∈ ws.files, (a.2.path == b.2.path) = true → a = b
  current : ∀ path, ws.textAt? path = currentText ops path
  parsed : ∀ entry ∈ ws.files, currentText ops entry.2.path = some entry.2.text ∧
    entry.2.parse = .ofText entry.2.text ∧ entry.2.package = (Node.root entry.2.parse.tree).packageName
  found : ∀ path id, ws.fileId? path = some id ↔ ∃ f, (id, f) ∈ ws.files ∧ f.path = path.normalize

theorem Run.accords {config : Config} {ops : List Operation} {ws : Workspace} (run : Run { config } ops ws) :
    ws.Accords ops := by
  have orderly := run.orderly (orderly_empty config)
  have normal := run.isNormal fun _ member => (nomatch member)
  have current : ∀ path, ws.textAt? path = currentText ops path := run.textAt?_eq (orderly_empty config)
  have own {entry : FileId × SourceFile} (member : entry ∈ ws.files) :=
    (orderly.read entry member).normalize_path
  constructor
  case normal => exact fun entry member => own member
  case numbered =>
    intro entry member
    have found := orderly.numbered entry member
    exact ⟨found, normal.path?_of_get? (own member) found⟩
  case apart =>
    intro a left b right same
    have numbers := orderly.eq_of_path_beq left right same
    exact List.inj_on_of_nodup_map ws.distinct left right numbers
  case current => exact current
  case parsed =>
    intro entry member
    have package : entry.2.package = (Node.root entry.2.parse.tree).packageName := by
      rw [(orderly.read entry member).eq_ofText]
      rfl
    exact ⟨current entry.2.path ▸ orderly.textAt?_of_mem member, entry.2.parse_eq, package⟩
  case found => exact fun path id => orderly.fileId?_eq_some_iff

namespace Orderly

variable {ws : Workspace} (orderly : ws.Orderly)
include orderly

/-- A file that is taken away and comes back stands behind all others. -/
theorem files_setText_remove (path : Path) (text : String) :
    ((ws.remove path).2.setText path text).2.files =
      ws.files.filter (fun entry => entry.2.path.text != path.normalize.text) ++
        [(((ws.remove path).2.setText path text).1, .ofText path.normalize text)] := by
  rw [← orderly.files_remove]
  refine putEntry_of_not_mem fun member => ?_
  obtain ⟨entry, here, same⟩ := List.mem_map.mp member
  have extended := (ws.remove path).2.fileSet.extends_assign path.normalize
  have later := (orderly.remove path).extend extended
  refine (orderly.mem_remove_iff.mp here).2 (later.path_eq_of_number here ?_)
  rw [same]
  exact FileSet.get?_assign _ _

theorem fileId?_loadFile {disk : Disk} {path : Path} {id : FileId} {ws' : Workspace}
    (loaded : ws.loadFile disk path = .ok (id, ws')) : ws'.fileId? path = some id := by
  have later : ws'.Orderly := by
    have taken := Operation.Takes.alone (.loadFile disk path) ws
    rw [Operation.apply, loaded] at taken
    exact taken.does.orderly orderly
  unfold Workspace.loadFile at loaded
  split at loaded
  · cases loaded
  · rename_i f done
    cases loaded
    refine later.fileId?_eq_some_iff.mpr ⟨f, (mem_putEntry ws.distinct).mpr (Or.inl rfl), ?_⟩
    unfold Loading.readSource at done
    split at done
    · cases done
    · cases done
      rfl

end Orderly

/-- Over whole sessions. Whatever a host does with an empty workspace, the files stand under the numbers of
their paths with their current texts; a path keeps the number that it was once given; and an operation
changes neither the data nor the order of files that it is not about. -/
theorem session_keeps_order {config : Config} {ops : List Operation} {ws : Workspace}
    (run : Run { config } ops ws) :
    ws.Accords ops ∧
      (∀ more ws', Run ws more ws' →
        (∀ path id, ws.fileSet.get? path = some id → ws'.fileSet.get? path = some id) ∧
        ∀ a ∈ ws.files, ∀ b ∈ ws'.files, a.2.path = b.2.path → a.1 = b.1) ∧
      (∀ path text, (ws.setText path text).2.fileId? path = some (ws.setText path text).1) ∧
      (∀ disk path id ws', ws.loadFile disk path = .ok (id, ws') → ws'.fileId? path = some id) ∧
      (∀ (op : Operation) (ws' : Workspace), op.Takes ws ws' →
        ws'.files.filter (!op.concerns ·.2.path) = ws.files.filter (!op.concerns ·.2.path) ∧
        (op.removed? = none → ∃ new, ws'.files.map Prod.fst = ws.files.map Prod.fst ++ new ∧
          ∀ id ∈ new, ∃ f ∈ op.given, ws.fileId? f.path = none ∧ ws'.fileId? f.path = some id)) ∧
      ∀ path text id, ws.fileId? path = some id →
        ((ws.remove path).2.setText path text).2.files =
          ws.files.filter (fun entry => entry.2.path.text != path.normalize.text) ++
            [(id, .ofText path.normalize text)] := by
  have orderly := run.orderly (orderly_empty config)
  refine ⟨run.accords, ?_, orderly.fileId?_setText, ?_, ?_, ?_⟩
  · intro more ws' rest
    refine ⟨rest.extends_fileSet, fun a left b right same => ?_⟩
    have before := rest.extends_fileSet _ _ (orderly.numbered a left)
    rw [same, (rest.orderly orderly).numbered b right] at before
    exact (Option.some.inj before).symm
  · exact fun disk path id ws' loaded => orderly.fileId?_loadFile loaded
  · exact fun op ws' taken => ⟨taken.does.filter_eq orderly, taken.does.places orderly⟩
  · intro path text id found
    have removal := Operation.Does.remove ws path
    have numbered := removal.extends_fileSet _ _ (Option.filter_eq_some_iff.mp found).1
    have same : ((ws.remove path).2.setText path text).1 = id :=
      congrArg Prod.fst (FileSet.assign_of_get? numbered)
    rw [orderly.files_setText_remove, same]

/-- Of two files the first is taken away and comes back under another spelling of its path. -/
theorem session_keeps_order_of_return :
    let ops : List Operation := [.setText ⟨"/p/a.go"⟩ "package p", .setText ⟨"/p/b.go"⟩ "package p",
      .remove ⟨"/p/a.go"⟩, .setText ⟨"/p/./a.go"⟩ "package q"]
    ∃ ws, Run {} ops ws ∧ ws.Accords ops ∧ ws.files.map (·.1.number) = [1, 0] :=
  have run := .next (.alone _ _) (.next (.alone _ _) (.next (.alone _ _) (.next (.alone _ _) (.done _))))
  ⟨_, run, (session_keeps_order run).1, by decide +kernel⟩

end Workspace

end GoNav
