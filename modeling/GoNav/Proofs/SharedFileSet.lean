import GoNav.Proofs.FileNumbers
import Mathlib.Data.List.Dedup
import Mathlib.Data.List.Perm.Subperm

namespace GoNav

/-! Tables whose look-ups are inverse to each other -/

namespace FileTable

variable {t : FileTable} {p : Path} {id : FileId}

/-- The look-ups by path and by number are inverse to each other, the numbers are those below the size, and
the next new path gets the first number that is left. -/
structure IsNumbering (t : FileTable) : Prop where
  path_of_number : ∀ p id, t.get? p = some id → ∃ q, t.path? id = some q ∧ (q == p) = true
  number_of_path : ∀ p id, t.path? id = some p → t.get? p = some id
  numbers : ∀ id, (∃ p, t.path? id = some p) ↔ id.number < t.size
  next : t.nextId = t.size

/-- The path under the number of a path is that path, however it is spelled. -/
theorem IsAligned.path?_of_get? (aligned : t.IsAligned) (found : t.get? p = some id) :
    ∃ q, t.path? id = some q ∧ (q == p) = true := by
  obtain ⟨bound, same, _⟩ := List.findIdx?_eq_some_iff_getElem.mp (aligned.get?_eq_some_iff.mp found)
  exact ⟨_, (aligned.path?_eq id).trans (List.getElem?_eq_getElem bound), same⟩

/-- A path has the number under which it stands. -/
theorem IsAligned.get?_of_path? (aligned : t.IsAligned) (found : t.path? id = some p) : t.get? p = some id := by
  rw [aligned.path?_eq, ← aligned.mem_pathToId_iff] at found
  exact (lookup_eq_some_iff aligned.apart).mpr ⟨p, found, BEq.rfl⟩

theorem IsAligned.isNumbering (aligned : t.IsAligned) : t.IsNumbering where
  path_of_number _ _ := aligned.path?_of_get?
  number_of_path _ _ := aligned.get?_of_path?
  numbers id := by rw [aligned.path?_eq, ← Option.isSome_iff_exists, isSome_getElem?, t.size_eq]
  next := aligned.next

end FileTable

/-! Callers that share sets -/

namespace Sharing

/-- How far a call for the number of a path has come. -/
inductive Stage where
  | asked
  /-- The path had no number when it was looked up. -/
  | missed
  | answered (id : FileId)
  deriving DecidableEq

/-- A call for the number of a path in one of the sets. -/
structure Call where
  handle : Nat
  path : Path
  stage : Stage

/-- The tables at hand, the first one and those that were copied since, and all calls that were made. -/
structure World where
  sets : List FileTable
  calls : List Call

def World.start : World :=
  ⟨[{}], []⟩

/-- What happens in one moment, while no one else holds the lock that it needs. -/
inductive Event where
  | call (handle : Nat) (path : Path)
  /-- The look-up of a call, with others that only read. -/
  | read (call : Nat)
  /-- The second look-up of a call that missed, in which the path gets a number if it still has none. -/
  | write (call : Nat)
  | get (handle : Nat) (path : Path)
  | path (handle : Nat) (id : FileId)
  | clone (handle : Nat)

def Stage.ofLookup : Option FileId → Stage
  | some id => .answered id
  | none => .missed

namespace World

/-- One event. Nothing happens where a call is at another stage, or a set is not there. -/
def step (w : World) : Event → World
  | .call handle path => { w with calls := w.calls ++ [⟨handle, path, .asked⟩] }
  | .read call =>
    match w.calls[call]? with
    | some ⟨handle, path, .asked⟩ =>
      match w.sets[handle]? with
      | some s => { w with calls := w.calls.set call ⟨handle, path, .ofLookup (s.get? path)⟩ }
      | none => w
    | _ => w
  | .write call =>
    match w.calls[call]? with
    | some ⟨handle, path, .missed⟩ =>
      match w.sets[handle]? with
      | some s =>
        { sets := w.sets.set handle (s.assign path).2
          calls := w.calls.set call ⟨handle, path, .answered (s.assign path).1⟩ }
      | none => w
    | _ => w
  | .get _ _ | .path _ _ => w
  | .clone handle =>
    match w.sets[handle]? with
    | some s => { w with sets := w.sets ++ [s] }
    | none => w

def run (w : World) (events : List Event) : World :=
  events.foldl step w

/-- What an event can do. -/
inductive Move (w : World) : World → Prop
  | stay : Move w w
  | call (handle : Nat) (path : Path) : Move w { w with calls := w.calls ++ [⟨handle, path, .asked⟩] }
  | hit {call handle : Nat} {path : Path} {s : FileTable} {id : FileId} :
      w.calls[call]? = some ⟨handle, path, .asked⟩ → w.sets[handle]? = some s → s.get? path = some id →
      Move w { w with calls := w.calls.set call ⟨handle, path, .answered id⟩ }
  | miss {call handle : Nat} {path : Path} : w.calls[call]? = some ⟨handle, path, .asked⟩ →
      Move w { w with calls := w.calls.set call ⟨handle, path, .missed⟩ }
  | write {call handle : Nat} {path : Path} {s : FileTable} :
      w.calls[call]? = some ⟨handle, path, .missed⟩ → w.sets[handle]? = some s →
      Move w ⟨w.sets.set handle (s.assign path).2, w.calls.set call ⟨handle, path, .answered (s.assign path).1⟩⟩
  | clone {handle : Nat} {s : FileTable} : w.sets[handle]? = some s → Move w { w with sets := w.sets ++ [s] }

theorem move_step (w : World) (event : Event) : Move w (w.step event) := by
  cases event with
  | call handle path => exact .call handle path
  | read call =>
    rw [step]
    split
    · rename_i handle path asked
      split
      · rename_i s there
        cases found : s.get? path with
        | some id => exact .hit asked there found
        | none => exact .miss asked
      · exact .stay
    · exact .stay
  | write call =>
    rw [step]
    split
    · rename_i handle path missed
      split
      · rename_i s there
        exact .write missed there
      · exact .stay
    · exact .stay
  | get handle path => exact .stay
  | path handle id => exact .stay
  | clone handle =>
    rw [step]
    split
    · rename_i s there
      exact .clone there
    · exact .stay

/-! What holds in every world that is come to -/

/-- In all sets numbers and paths belong together, and they are those that calls were answered by. -/
structure Sound (w : World) : Prop where
  aligned : ∀ s ∈ w.sets, s.IsAligned
  answered : ∀ c ∈ w.calls, ∀ id, c.stage = .answered id →
    ∃ s, w.sets[c.handle]? = some s ∧ s.get? c.path = some id
  given : ∀ s ∈ w.sets, ∀ p id, s.get? p = some id →
    ∃ c ∈ w.calls, c.stage = .answered id ∧ (c.path == p) = true

/-- What a world has is still there in the other one: its sets with their numbers, and its answers. -/
structure Leads (w w' : World) : Prop where
  sets : ∀ (handle : Nat) (s : FileTable), w.sets[handle]? = some s →
    ∃ s', w'.sets[handle]? = some s' ∧ s.Extends s'
  answers : ∀ c ∈ w.calls, ∀ id, c.stage = .answered id → c ∈ w'.calls

theorem sound_start : start.Sound where
  aligned s member := List.mem_singleton.mp member ▸ FileTable.isAligned_empty
  answered _ member := nomatch member
  given s member p id found := by
    cases List.mem_singleton.mp member
    cases found

theorem leads_refl (w : World) : Leads w w :=
  ⟨fun _ s there => ⟨s, there, fun _ _ found => found⟩, fun _ member _ _ => member⟩

theorem Leads.trans {w mid w' : World} (first : Leads w mid) (second : Leads mid w') : Leads w w' where
  sets handle s there := by
    obtain ⟨s', here, extended⟩ := first.sets handle s there
    obtain ⟨s'', last, further⟩ := second.sets handle s' here
    exact ⟨s'', last, fun p id found => further p id (extended p id found)⟩
  answers c member id stage := second.answers c (first.answers c member id stage) id stage

section Calls

variable {calls : List Call} {call : Nat} {old new : Call}

/-- A call that goes on takes no answer away. -/
theorem mem_set_of_answered {c : Call} {id : FileId} (member : c ∈ calls) (stage : c.stage = .answered id)
    (going : calls[call]? = some old) (unanswered : old.stage = .asked ∨ old.stage = .missed) :
    c ∈ calls.set call new := by
  obtain ⟨i, here⟩ := List.mem_iff_getElem?.mp member
  have other : call ≠ i := by
    rintro rfl
    cases here.symm.trans going
    rw [stage] at unanswered
    rcases unanswered with asked | missed
    · cases asked
    · cases missed
  exact List.mem_iff_getElem?.mpr ⟨i, by rw [List.getElem?_set_ne other, here]⟩

theorem mem_set_self (going : calls[call]? = some old) : new ∈ calls.set call new := by
  obtain ⟨bound, _⟩ := List.getElem?_eq_some_iff.mp going
  exact List.mem_iff_getElem?.mpr ⟨call, by rw [List.getElem?_set_self bound]⟩

end Calls

theorem Move.leads {w w' : World} (sound : w.Sound) (move : Move w w') : Leads w w' := by
  cases move with
  | stay => exact leads_refl w
  | call handle path => exact ⟨(leads_refl w).sets, fun c member _ _ => List.mem_append_left _ member⟩
  | hit asked _ _ =>
    exact ⟨(leads_refl w).sets, fun c member _ stage => mem_set_of_answered member stage asked (.inl rfl)⟩
  | miss asked =>
    exact ⟨(leads_refl w).sets, fun c member _ stage => mem_set_of_answered member stage asked (.inl rfl)⟩
  | @write call handle path s missed there =>
    refine ⟨fun other t found => ?_, fun c member _ stage => mem_set_of_answered member stage missed (.inr rfl)⟩
    by_cases same : handle = other
    · subst same
      cases there.symm.trans found
      obtain ⟨bound, _⟩ := List.getElem?_eq_some_iff.mp there
      have aligned := sound.aligned s (List.mem_iff_getElem?.mpr ⟨handle, there⟩)
      exact ⟨_, List.getElem?_set_self bound, aligned.extends_assign path⟩
    · exact ⟨t, by rw [List.getElem?_set_ne same, found], fun _ _ numbered => numbered⟩
  | clone there =>
    refine ⟨fun other t found => ⟨t, ?_, fun _ _ numbered => numbered⟩, fun c member _ _ => member⟩
    rw [List.getElem?_append_left (List.getElem?_eq_some_iff.mp found).1, found]

/-- An event keeps numbers and paths together. What is new are the set in which a path got a number and the
call that was answered by it. -/
theorem Sound.move {w w' : World} (sound : w.Sound) (move : Move w w') : w'.Sound := by
  have leads := move.leads sound
  have answered {c : Call} {id : FileId} (member : c ∈ w.calls) (stage : c.stage = .answered id) :
      ∃ s, w'.sets[c.handle]? = some s ∧ s.get? c.path = some id := by
    obtain ⟨s, there, found⟩ := sound.answered c member id stage
    obtain ⟨s', here, extended⟩ := leads.sets _ s there
    exact ⟨s', here, extended _ _ found⟩
  have given {s : FileTable} {p : Path} {id : FileId} (member : s ∈ w.sets) (found : s.get? p = some id) :
      ∃ c ∈ w'.calls, c.stage = .answered id ∧ (c.path == p) = true := by
    obtain ⟨c, among, stage, same⟩ := sound.given s member p id found
    exact ⟨c, leads.answers c among id stage, stage, same⟩
  cases move with
  | stay => exact sound
  | call handle path =>
    refine ⟨sound.aligned, fun c member id stage => ?_, fun s member p id => given member⟩
    rcases List.mem_append.mp member with old | new
    · exact answered old stage
    · cases List.mem_singleton.mp new
      cases stage
  | hit asked there found =>
    refine ⟨sound.aligned, fun c member id stage => ?_, fun s member p id => given member⟩
    rcases List.mem_or_eq_of_mem_set member with old | rfl
    · exact answered old stage
    · cases stage
      exact ⟨_, there, found⟩
  | miss asked =>
    refine ⟨sound.aligned, fun c member id stage => ?_, fun s member p id => given member⟩
    rcases List.mem_or_eq_of_mem_set member with old | rfl
    · exact answered old stage
    · cases stage
  | @write call handle path s missed there =>
    have among : s ∈ w.sets := List.mem_iff_getElem?.mpr ⟨handle, there⟩
    refine ⟨fun t member => ?_, fun c member id stage => ?_, fun t member p id found => ?_⟩
    · rcases List.mem_or_eq_of_mem_set member with old | rfl
      · exact sound.aligned t old
      · exact (sound.aligned s among).assign path
    · rcases List.mem_or_eq_of_mem_set member with old | rfl
      · exact answered old stage
      · cases stage
        obtain ⟨bound, _⟩ := List.getElem?_eq_some_iff.mp there
        exact ⟨_, List.getElem?_set_self bound, (sound.aligned s among).get?_assign path⟩
    · rcases List.mem_or_eq_of_mem_set member with old | rfl
      · exact given old found
      · rcases (sound.aligned s among).get?_of_assign found with before | ⟨same, rfl⟩
        · exact given among before
        · exact ⟨_, mem_set_self missed, rfl, same⟩
  | @clone handle s there =>
    have among : s ∈ w.sets := List.mem_iff_getElem?.mpr ⟨handle, there⟩
    have source {t : FileTable} (member : t ∈ w.sets ++ [s]) : t ∈ w.sets := by
      rcases List.mem_append.mp member with old | new
      · exact old
      · exact List.mem_singleton.mp new ▸ among
    exact ⟨fun t member => sound.aligned t (source member), fun c member id => answered member,
      fun t member p id => given (source member)⟩

theorem Sound.run {w : World} (sound : w.Sound) (events : List Event) : (w.run events).Sound := by
  induction events generalizing w with
  | nil => exact sound
  | cons event rest ih => exact ih (sound.move (move_step w event))

theorem Sound.leads_run {w : World} (sound : w.Sound) (events : List Event) : Leads w (w.run events) := by
  induction events generalizing w with
  | nil => exact leads_refl w
  | cons event rest ih =>
    have move := move_step w event
    exact (move.leads sound).trans (ih (sound.move move))

/-- How many paths were asked for, each counted once in whatever spelling. -/
def pathCount (w : World) : Nat :=
  (w.calls.map (·.path.components)).dedup.length

/-- No set has more numbers than paths were asked for. -/
theorem Sound.size_le {w : World} (sound : w.Sound) {s : FileTable} (member : s ∈ w.sets) :
    s.size ≤ w.pathCount := by
  have aligned := sound.aligned s member
  have once : (s.paths.map Path.components).Nodup := by
    refine List.pairwise_map.mpr (aligned.apart.imp fun different same => ?_)
    rw [Path.beq_iff_components.mpr same] at different
    cases different
  have asked : s.paths.map Path.components ⊆ (w.calls.map (·.path.components)).dedup := by
    intro components among
    obtain ⟨p, here, rfl⟩ := List.mem_map.mp among
    obtain ⟨i, stands⟩ := List.mem_iff_getElem?.mp here
    obtain ⟨c, called, _, same⟩ := sound.given s member p ⟨i⟩
      (aligned.get?_of_path? ((aligned.path?_eq ⟨i⟩).trans stands))
    exact List.mem_dedup.mpr (List.mem_map.mpr ⟨c, called, Path.beq_iff_components.mp same⟩)
  have counted := (once.subperm asked).length_le
  rwa [List.length_map, ← s.size_eq] at counted

/-- A set answers a path by a number, and so do all calls that were answered. -/
def Answers (w : World) (handle : Nat) (path : Path) (id : FileId) : Prop :=
  (∃ s, w.sets[handle]? = some s ∧ s.get? path = some id) ∧
    ∀ c ∈ w.calls, ∀ j, c.handle = handle → (c.path == path) = true → c.stage = .answered j → j = id

namespace Sound

variable {w : World} (sound : w.Sound)
include sound

theorem answers_of_get? {handle : Nat} {path : Path} {id : FileId} {s : FileTable}
    (there : w.sets[handle]? = some s) (found : s.get? path = some id) : w.Answers handle path id := by
  refine ⟨⟨s, there, found⟩, fun c member j here same stage => ?_⟩
  obtain ⟨t, again, numbered⟩ := sound.answered c member j stage
  rw [here, there] at again
  cases again
  rw [FileTable.get?_congr same, found] at numbered
  exact (Option.some.inj numbered).symm

/-- A number that a set has given stays with its path. -/
theorem answers_run {handle : Nat} {path : Path} {id : FileId} {s : FileTable}
    (there : w.sets[handle]? = some s) (found : s.get? path = some id) (events : List Event) :
    (w.run events).Answers handle path id := by
  obtain ⟨s', here, extended⟩ := (sound.leads_run events).sets handle s there
  exact (sound.run events).answers_of_get? here (extended path id found)

theorem answered_eq_iff {c d : Call} {i j : FileId} (left : c ∈ w.calls) (right : d ∈ w.calls)
    (same : c.handle = d.handle) (first : c.stage = .answered i) (second : d.stage = .answered j) :
    i = j ↔ (c.path == d.path) = true := by
  obtain ⟨s, there, foundFirst⟩ := sound.answered c left i first
  obtain ⟨t, again, foundSecond⟩ := sound.answered d right j second
  rw [← same, there] at again
  cases again
  constructor
  · rintro rfl
    exact (sound.aligned s (List.mem_iff_getElem?.mpr ⟨_, there⟩)).beq_of_get? foundFirst foundSecond
  · intro paths
    rw [FileTable.get?_congr paths, foundSecond] at foundFirst
    exact (Option.some.inj foundFirst).symm

end Sound

/-- Only the second look-up of a call changes a set. -/
theorem sets_step {w : World} {event : Event} (reads : ∀ call, event ≠ .write call) {handle : Nat} {s : FileTable}
    (there : w.sets[handle]? = some s) : (w.step event).sets[handle]? = some s := by
  cases event with
  | call | get | path => exact there
  | read call =>
    rw [step]
    split
    · split <;> exact there
    · exact there
  | write call => exact absurd rfl (reads call)
  | clone =>
    rw [step]
    split
    · rw [List.getElem?_append_left (List.getElem?_eq_some_iff.mp there).1, there]
    · exact there

/-- A call that no one interrupts gives a path its number as if it were one step. -/
theorem run_call {w : World} {handle : Nat} {s : FileTable} (there : w.sets[handle]? = some s) (path : Path) :
    w.run [.call handle path, .read w.calls.length, .write w.calls.length] =
      ⟨w.sets.set handle (s.assign path).2, w.calls ++ [⟨handle, path, .answered (s.assign path).1⟩]⟩ := by
  have same : w.sets.set handle s = w.sets := by
    obtain ⟨bound, here⟩ := List.getElem?_eq_some_iff.mp there
    rw [← here, List.set_getElem_self]
  cases found : s.get? path with
  | some id => simp [run, step, there, found, Stage.ofLookup, FileTable.assign_of_get? found, same]
  | none => simp [run, step, there, found, Stage.ofLookup]

/-- Numbers under concurrency. However the two steps of any number of calls come between each other, and
between other look-ups and copies: in each set the look-ups by path and by number are inverse to each other,
and the numbers are those below its size, which is its next number and less than the bound for paths; two
calls are answered by one number exactly if their paths are equal by component; a number that was once an
answer for a path remains the answer, in copies that are taken later too; and every number comes from a call
for its path, as no other event gives one. -/
theorem numbers_under_interleaving (events : List Event) (few : (start.run events).pathCount < UInt32.size) :
    (∀ s ∈ (start.run events).sets, s.IsNumbering ∧ s.size < UInt32.size) ∧
      (∀ c ∈ (start.run events).calls, ∀ d ∈ (start.run events).calls, ∀ i j, c.handle = d.handle →
        c.stage = .answered i → d.stage = .answered j → (i = j ↔ (c.path == d.path) = true)) ∧
      (∀ c ∈ (start.run events).calls, ∀ id, c.stage = .answered id →
        (start.run events).Answers c.handle c.path id) ∧
      (∀ handle p id, (start.run events).Answers handle p id → ∀ more : List Event,
        (start.run (events ++ more)).Answers handle p id ∧
        (start.run (events ++ .clone handle :: more)).Answers (start.run events).sets.length p id) ∧
      (∀ s ∈ (start.run events).sets, ∀ p id, s.get? p = some id →
        ∃ c ∈ (start.run events).calls, c.stage = .answered id ∧ (c.path == p) = true) ∧
      ∀ event : Event, (∀ call, event ≠ .write call) → ∀ (handle : Nat) (s : FileTable),
        (start.run events).sets[handle]? = some s → (start.run (events ++ [event])).sets[handle]? = some s := by
  have sound := sound_start.run events
  have later (more : List Event) : start.run (events ++ more) = (start.run events).run more :=
    List.foldl_append
  refine ⟨fun s member => ?_, ?_, ?_, ?_, sound.given, ?_⟩
  · exact ⟨(sound.aligned s member).isNumbering, Nat.lt_of_le_of_lt (sound.size_le member) few⟩
  · exact fun c left d right i j => sound.answered_eq_iff left right
  · intro c member id stage
    obtain ⟨s, there, found⟩ := sound.answered c member id stage
    exact sound.answers_of_get? there found
  · rintro handle p id ⟨⟨s, there, found⟩, _⟩ more
    have copied : ((start.run events).step (.clone handle)).sets[(start.run events).sets.length]? = some s := by
      simp [step, there]
    rw [later, later]
    exact ⟨sound.answers_run there found more,
      (sound.move (move_step _ _)).answers_run copied found more⟩
  · intro event reads handle s there
    rw [later]
    exact sets_step reads there

/-- Three callers ask for two paths, one of them in two spellings, and all miss before any writes. -/
theorem numbers_under_interleaving_of_race :
    ∃ w, w = start.run [.call 0 ⟨"/p/a.go"⟩, .call 0 ⟨"/p//a.go"⟩, .call 0 ⟨"/p/b.go"⟩, .read 2, .read 1,
        .read 0, .write 1, .get 0 ⟨"/p/a.go"⟩, .write 2, .clone 0, .write 0] ∧
      w.pathCount < UInt32.size ∧ w.calls.map Call.stage = [.answered ⟨0⟩, .answered ⟨0⟩, .answered ⟨1⟩] ∧
      ∀ s ∈ w.sets, s.IsNumbering ∧ s.size < UInt32.size := by
  have few : (start.run [.call 0 ⟨"/p/a.go"⟩, .call 0 ⟨"/p//a.go"⟩, .call 0 ⟨"/p/b.go"⟩, .read 2, .read 1,
      .read 0, .write 1, .get 0 ⟨"/p/a.go"⟩, .write 2, .clone 0, .write 0]).pathCount < UInt32.size := by
    decide +kernel
  exact ⟨_, rfl, few, by decide +kernel, (numbers_under_interleaving _ few).1⟩

end World

end Sharing

end GoNav
