import GoNav.Proofs.MemberSearch
import Mathlib.Data.Finset.Card

namespace GoNav

/-! Searches with and without an answer -/

namespace Bounded

variable {m : Type → Type} [Bounded m] {α β : Type}

/-- Where one search has an answer, another one comes to the same. -/
def Agrees (x : Option α) (y : m α) : Prop :=
  ∀ a, x = some a → y = pure a

namespace Agrees

theorem refl (x : Option α) : Agrees (m := Option) x x :=
  fun _ found => found

theorem trans {x y : Option α} {z : m α} (first : Agrees (m := Option) x y) (second : Agrees y z) : Agrees x z :=
  fun a found => second a (first a found)

theorem pure (a : α) : Agrees (some a) (Pure.pure a : m α) := by
  intro b same
  cases same
  rfl

theorem none (y : m α) : Agrees Option.none y :=
  nofun

variable [LawfulMonad m]

theorem bind {x : Option α} {y : m α} {f : α → Option β} {g : α → m β} (first : Agrees x y)
    (later : ∀ a, x = some a → Agrees (f a) (g a)) : Agrees (x >>= f) (y >>= g) := by
  intro b found
  obtain ⟨a, known, further⟩ := Option.bind_eq_some_iff.mp found
  rw [first a known, pure_bind]
  exact later a known b further

theorem orElse {x x' : Option (Option α)} {y y' : m (Option α)} (first : Agrees x y)
    (second : Agrees x' y') : Agrees (Bounded.orElse (m := Option) x x') (Bounded.orElse y y') := by
  refine first.bind fun found _ => ?_
  cases found with
  | none => exact second
  | some a => exact .pure _

theorem andThen {x : Option (Option α)} {y : m (Option α)} {f : α → Option (Option β)} {g : α → m (Option β)}
    (first : Agrees x y) (further : ∀ a, x = some (some a) → Agrees (f a) (g a)) :
    Agrees (Bounded.andThen (m := Option) x f) (Bounded.andThen y g) := by
  refine first.bind fun found known => ?_
  cases found with
  | none => exact .pure _
  | some a => exact further a known

theorem findSomeM? {f : α → Option (Option β)} {g : α → m (Option β)} {as : List α}
    (each : ∀ a ∈ as, Agrees (f a) (g a)) :
    Agrees (List.findSomeM? (m := Option) f as) (List.findSomeM? g as) := by
  induction as with
  | nil => exact .pure _
  | cons a rest ih =>
    refine (each a (List.mem_cons_self ..)).bind fun found _ => ?_
    cases found with
    | none => exact ih fun b member => each b (List.mem_cons_of_mem a member)
    | some b => exact .pure _

theorem concatM {f : α → Option (List β)} {g : α → m (List β)} {as : List α}
    (each : ∀ a ∈ as, Agrees (f a) (g a)) :
    Agrees (Bounded.concatM (m := Option) f as) (Bounded.concatM g as) := by
  induction as with
  | nil => exact .pure _
  | cons a rest ih =>
    refine (each a (List.mem_cons_self ..)).bind fun first _ => ?_
    exact (ih fun b member => each b (List.mem_cons_of_mem a member)).bind fun later _ => .pure _

end Agrees

theorem isSome_bind {x : Option α} {f : α → Option β} (first : x.isSome = true)
    (later : ∀ a, x = some a → (f a).isSome = true) : (x >>= f).isSome = true := by
  obtain ⟨a, found⟩ := Option.isSome_iff_exists.mp first
  rw [found]
  exact later a found

theorem isSome_orElse_pure (first : Option (Option α)) (second : Option α) :
    (orElse (m := Option) first (pure second)).isSome = first.isSome := by
  rcases first with _ | _ | a <;> rfl

theorem isSome_orElse {first second : Option (Option α)} (ends : first.isSome = true) (endsToo : second.isSome = true) :
    (orElse (m := Option) first second).isSome = true := by
  refine isSome_bind ends fun found _ => ?_
  cases found with
  | none => exact endsToo
  | some a => rfl

theorem isSome_findSomeM? {f : α → Option (Option β)} {as : List α} (each : ∀ a ∈ as, (f a).isSome = true) :
    (List.findSomeM? (m := Option) f as).isSome = true := by
  induction as with
  | nil => rfl
  | cons a rest ih =>
    refine isSome_bind (each a (List.mem_cons_self ..)) fun found _ => ?_
    cases found with
    | none => exact ih fun b member => each b (List.mem_cons_of_mem a member)
    | some b => rfl

theorem isSome_concatM {f : α → Option (List β)} {as : List α} (each : ∀ a ∈ as, (f a).isSome = true) :
    (concatM (m := Option) f as).isSome = true := by
  induction as with
  | nil => rfl
  | cons a rest ih =>
    refine isSome_bind (each a (List.mem_cons_self ..)) fun _ _ => ?_
    exact isSome_bind (ih fun b member => each b (List.mem_cons_of_mem a member)) fun _ _ => rfl

end Bounded

/-- What holds of more and more elements of a list from round to round, and no longer grows once it does not grow
in one round, holds after as many rounds as there are elements of all those of which it ever holds. -/
theorem holds_at_length {α : Type} {l : List α} {P : Nat → α → Prop}
    (grows : ∀ n, ∀ a ∈ l, P n a → P (n + 1) a)
    (rests : ∀ n, (∀ a ∈ l, P (n + 1) a → P n a) → ∀ a ∈ l, P (n + 2) a → P (n + 1) a)
    {n : Nat} {a : α} (member : a ∈ l) (holds : P n a) : P l.length a := by
  classical
  let those (n : Nat) : Finset α := l.toFinset.filter (P n)
  have mem_those {n : Nat} {a : α} : a ∈ those n ↔ a ∈ l ∧ P n a := by simp [those]
  have subset (n : Nat) : those n ⊆ those (n + 1) := by
    intro a here
    obtain ⟨among, now⟩ := mem_those.mp here
    exact mem_those.mpr ⟨among, grows n a among now⟩
  have mono : Monotone those := monotone_nat_of_le_succ subset
  have few (n : Nat) : (those n).card ≤ l.length :=
    (Finset.card_filter_le ..).trans (List.toFinset_card_le l)
  have rest (n : Nat) (equal : (those n).card = (those (n + 1)).card) :
      (those (n + 1)).card = (those (n + 2)).card := by
    have same := Finset.eq_of_subset_of_card_le (subset n) equal.ge
    refine congrArg Finset.card ((subset (n + 1)).antisymm fun a here => ?_)
    obtain ⟨among, later⟩ := mem_those.mp here
    refine mem_those.mpr ⟨among, rests n (fun b inside next => ?_) a among later⟩
    exact (mem_those.mp (same ▸ mem_those.mpr ⟨inside, next⟩)).2
  have stable := Nat.stabilises_of_monotone (Finset.card_mono.comp mono) few rest (le_max_right n l.length)
  have same := Finset.eq_of_subset_of_card_le (mono (le_max_right n l.length)) stable.le
  have ever : a ∈ those (max n l.length) := mono (le_max_left n l.length) (mem_those.mpr ⟨member, holds⟩)
  exact (mem_those.mp (same ▸ ever)).2

/-- Searches of which each needs the answers of others for one bound less have their answers within as many rounds
as there are searches. -/
theorem Bounded.agrees_at_length {ι α : Type} {l : List ι} {f : Nat → ι → Option α}
    (grows : ∀ n, ∀ i ∈ l, Agrees (m := Option) (f n i) (f (n + 1) i))
    (rests : ∀ n, (∀ i ∈ l, Agrees (m := Option) (f (n + 1) i) (f n i)) →
      ∀ i ∈ l, Agrees (m := Option) (f (n + 2) i) (f (n + 1) i))
    {n : Nat} {i : ι} (member : i ∈ l) : Agrees (m := Option) (f n i) (f l.length i) := by
  have lasts {n k : Nat} (le : n ≤ k) : Agrees (m := Option) (f n i) (f k i) := by
    induction k, le using Nat.le_induction with
    | base => exact .refl _
    | succ k _ ih => exact ih.trans (grows k i member)
  intro a found
  have answered : (f l.length i).isSome = true := by
    refine holds_at_length (P := fun n i => (f n i).isSome = true) (fun n j among answered => ?_)
      (fun n still j among answered => ?_) member (n := n) (Option.isSome_iff_exists.mpr ⟨a, found⟩)
    · obtain ⟨b, known⟩ := Option.isSome_iff_exists.mp answered
      exact Option.isSome_iff_exists.mpr ⟨b, grows n j among b known⟩
    · have back : ∀ j ∈ l, Agrees (m := Option) (f (n + 1) j) (f n j) := by
        intro j among b later
        obtain ⟨c, earlier⟩ := Option.isSome_iff_exists.mp (still j among (Option.isSome_iff_exists.mpr ⟨b, later⟩))
        exact earlier.trans ((grows n j among c earlier).symm.trans later)
      obtain ⟨b, known⟩ := Option.isSome_iff_exists.mp answered
      exact Option.isSome_iff_exists.mpr ⟨b, rests n back j among b known⟩
  obtain ⟨b, known⟩ := Option.isSome_iff_exists.mp answered
  have fromHere := lasts (le_max_left n l.length) a found
  have fromThere := lasts (le_max_right n l.length) b known
  exact known.trans (fromThere.symm.trans fromHere)

/-- A search that has every answer within two bounds ends exactly if it ends within these. -/
theorem Bounded.isSome_iff_exists_bounds {α : Type} {f : Nat → Nat → Option α} {members depth : Nat}
    (enough : ∀ members' depth' a, f members' depth' = some a → f members depth = some a) :
    (f members depth).isSome = true ↔ ∃ a members' depth', f members' depth' = some a := by
  rw [Option.isSome_iff_exists]
  refine exists_congr fun a => ⟨fun answered => ⟨members, depth, answered⟩, ?_⟩
  rintro ⟨members', depth', answered⟩
  exact enough members' depth' a answered

theorem Node.kind_of_typeReference {typ n : Node} (found : typ.typeReference = some n) : n.kind = .typeReference := by
  unfold typeReference at found
  split at found
  · exact kind_of_child found
  · cases found

/-! Members -/

namespace Members

variable {m : Type → Type} [Bounded m] [LawfulMonad m] {ws : Workspace} {typ reference : FileNode} {name : String}
  {depth more : Nat}

/-- A reference in a type of the workspace. -/
def IsTypeReference (ws : Workspace) (place : FileNode) : Prop :=
  ws.Holds place ∧ place.node.kind = .typeReference

theorem isTypeReference_of_reference? (held : ws.Holds typ) (refers : reference? typ = some reference) :
    IsTypeReference ws reference := by
  obtain ⟨n, found, rfl⟩ := Option.map_eq_some_iff.mp refers
  exact ⟨held.near (.typeReference found), Node.kind_of_typeReference found⟩

theorem isTypeReference_of_mem_embedded (held : ws.Holds typ) (member : reference ∈ embedded typ) :
    IsTypeReference ws reference := by
  refine ⟨embedded_holds held member, ?_⟩
  obtain ⟨field, _, found⟩ := List.mem_filterMap.mp member
  obtain ⟨n, inner, rfl⟩ := Option.map_eq_some_iff.mp found
  obtain ⟨expr, _, refers⟩ := Option.bind_eq_some_iff.mp inner
  exact Node.kind_of_typeReference refers

/-- References of the workspace lead to declarations of types in it. -/
def LeadsToSpecs (ws : Workspace) (specs : FileNode → Option (Option FileNode)) : Prop :=
  ∀ place spec, IsTypeReference ws place → specs place = some (some spec) →
    ws.Holds spec ∧ spec.node.kind = .typeSpec

section

variable {specs : FileNode → Option (Option FileNode)} {specOf : FileNode → m (Option FileNode)}
  (leads : LeadsToSpecs ws specs)
  (agree : ∀ place, IsTypeReference ws place → Bounded.Agrees (specs place) (specOf place))

include leads agree

theorem searchBehind_agrees {searchIn : FileNode → Option (Option Declaration)}
    {searchIn' : FileNode → m (Option Declaration)}
    (below : ∀ spec n, ws.Holds spec → spec.node.kind = .typeSpec → spec.node.typeExpr = some n →
      Bounded.Agrees (searchIn ⟨spec.file, n⟩) (searchIn' ⟨spec.file, n⟩))
    (refers : IsTypeReference ws reference) :
    Bounded.Agrees (searchBehind (m := Option) specs typ searchIn reference)
      (searchBehind specOf typ searchIn' reference) := by
  refine (agree reference refers).andThen fun spec named => ?_
  obtain ⟨held, kind⟩ := leads reference spec refers named
  cases typed : spec.node.typeExpr with
  | none => exact .pure _
  | some n =>
    dsimp only
    split
    · exact .pure _
    · exact below spec n held kind typed

/-- One level of the search for a member. -/
theorem searchM_add_one_agrees
    (below : ∀ spec n, ws.Holds spec → spec.node.kind = .typeSpec → spec.node.typeExpr = some n →
      Bounded.Agrees (searchM (m := Option) ws specs name depth ⟨spec.file, n⟩)
        (searchM ws specOf name more ⟨spec.file, n⟩))
    (held : ws.Holds typ) :
    Bounded.Agrees (searchM (m := Option) ws specs name (depth + 1) typ) (searchM ws specOf name (more + 1) typ) := by
  have promoted : ∀ reference ∈ embedded typ,
      Bounded.Agrees (searchBehind (m := Option) specs typ (searchM (m := Option) ws specs name depth) reference)
        (searchBehind specOf typ (searchM ws specOf name more) reference) :=
    fun reference member =>
      searchBehind_agrees leads agree below (isTypeReference_of_mem_embedded held member)
  exact .orElse (.pure _) (.orElse (.findSomeM? promoted) (.pure _))

theorem searchM_agrees (le : depth ≤ more) (held : ws.Holds typ) :
    Bounded.Agrees (searchM (m := Option) ws specs name depth typ) (searchM ws specOf name more typ) := by
  induction depth generalizing more typ with
  | zero => exact .none _
  | succ depth ih =>
    obtain ⟨more, rfl⟩ : ∃ n, more = n + 1 := ⟨more - 1, by omega⟩
    refine searchM_add_one_agrees leads agree (fun spec n specHeld _ typed => ?_) held
    exact ih (by omega) (specHeld.near (.childWhere typed))

theorem findM_agrees
    (search : ∀ typ, ws.Holds typ →
      Bounded.Agrees (searchM (m := Option) ws specs name depth typ) (searchM ws specOf name more typ))
    (held : ws.Holds typ) :
    Bounded.Agrees (findM (m := Option) ws specs depth typ name) (findM ws specOf more typ name) := by
  refine (search typ held).orElse ?_
  cases pointed : pointee? typ with
  | none => exact .pure _
  | some target =>
    cases refers : reference? target with
    | none => simp only [Option.bind_some, refers]; exact .pure _
    | some reference =>
      simp only [Option.bind_some, refers]
      refine searchBehind_agrees leads agree (fun spec n specHeld _ typed => ?_)
        (isTypeReference_of_reference? (pointee?_holds held pointed) refers)
      exact search _ (specHeld.near (.childWhere typed))

theorem collectBehind_agrees {path : List FileNode}
    {collectFrom : Option FileNode → FileNode → List FileNode → Option (List Declaration)}
    {collectFrom' : Option FileNode → FileNode → List FileNode → m (List Declaration)}
    (below : ∀ spec n, ws.Holds spec → spec.node.kind = .typeSpec → spec.node.typeExpr = some n →
      path.contains spec = false → Bounded.Agrees (collectFrom (some spec) ⟨spec.file, n⟩ (path ++ [spec]))
        (collectFrom' (some spec) ⟨spec.file, n⟩ (path ++ [spec])))
    (refers : IsTypeReference ws reference) :
    Bounded.Agrees (collectBehind (m := Option) specs path collectFrom reference)
      (collectBehind specOf path collectFrom' reference) := by
  refine (agree reference refers).bind fun found named => ?_
  cases found with
  | none => exact .pure _
  | some spec =>
    obtain ⟨held, kind⟩ := leads reference spec refers named
    dsimp only
    cases fresh : path.contains spec with
    | true => exact .pure _
    | false =>
      cases typed : spec.node.typeExpr with
      | none => exact .pure _
      | some n => exact below spec n held kind typed fresh

/-- Collecting members that has an answer has it within the bound for the workspace, since no declaration is
entered twice on a way inward. -/
theorem collectInM_agrees {owner : Option FileNode} {path : List FileNode} (held : ws.Holds typ)
    (listed : Listed ws path) (enough : ws.memberDepth < path.length + more + 2) :
    Bounded.Agrees (collectInM (m := Option) ws specs depth owner typ path)
      (collectInM ws specOf more owner typ path) := by
  induction depth generalizing more owner typ path with
  | zero => exact .none _
  | succ depth ih =>
    have bound := listed.length_lt
    obtain ⟨more, rfl⟩ : ∃ n, more = n + 1 := ⟨more - 1, by omega⟩
    have promoted : ∀ reference ∈ embedded typ,
        Bounded.Agrees (collectBehind (m := Option) specs path (collectInM (m := Option) ws specs depth) reference)
          (collectBehind specOf path (collectInM ws specOf more) reference) := by
      intro reference member
      refine collectBehind_agrees leads agree (fun spec n specHeld kind typed fresh => ?_)
        (isTypeReference_of_mem_embedded held member)
      refine ih (specHeld.near (.childWhere typed)) (listed.append fresh specHeld kind) ?_
      rw [List.length_append, List.length_singleton]
      omega
    exact (Bounded.Agrees.concatM promoted).bind fun _ _ => .pure _

theorem collectM_agrees (held : ws.Holds typ) :
    Bounded.Agrees (collectM (m := Option) ws specs depth typ) (collectM ws specOf ws.memberDepth typ) := by
  unfold collectM
  cases pointed : pointee? typ with
  | none => exact .pure _
  | some target =>
    have targetHeld := pointee?_holds held pointed
    refine (collectInM_agrees leads agree targetHeld (listed_owner? targetHeld) (by omega)).bind fun own _ => ?_
    refine Bounded.Agrees.bind ?_ fun ofNamed _ => .pure _
    cases refers : reference? target with
    | none => exact .pure _
    | some reference =>
      refine collectBehind_agrees leads agree (fun spec n specHeld kind typed _ => ?_)
        (isTypeReference_of_reference? targetHeld refers)
      exact collectInM_agrees leads agree (specHeld.near (.childWhere typed)) (listed_singleton specHeld kind)
        (by omega)

end

/-- The right-hand sides of all declarations of types. -/
def declared (ws : Workspace) : List FileNode :=
  (ws.nodes.filter (·.node.kind == .typeSpec)).filterMap fun spec => spec.node.typeExpr.map (⟨spec.file, ·⟩)

theorem mem_declared {spec : FileNode} {n : Node} (held : ws.Holds spec) (kind : spec.node.kind = .typeSpec)
    (typed : spec.node.typeExpr = some n) : ⟨spec.file, n⟩ ∈ declared ws :=
  List.mem_filterMap.mpr ⟨spec, mem_specs held kind, by rw [typed]; rfl⟩

theorem holds_of_mem_declared (member : typ ∈ declared ws) : ws.Holds typ := by
  obtain ⟨spec, among, made⟩ := List.mem_filterMap.mp member
  obtain ⟨n, typed, rfl⟩ := Option.map_eq_some_iff.mp made
  exact (Workspace.holds_of_mem_nodes (List.mem_filter.mp among).1).near (.childWhere typed)

theorem length_declared_lt (ws : Workspace) : (declared ws).length + 1 < ws.memberDepth := by
  have fewer : (declared ws).length ≤ (ws.nodes.filter (·.node.kind == .typeSpec)).length :=
    List.length_filterMap_le ..
  rw [Workspace.memberDepth]
  omega

/-- A search for a member that has an answer has it within the bound for the workspace: there are no more types
to go on to than declarations. -/
theorem searchM_memberDepth {specs : FileNode → Option (Option FileNode)} (leads : LeadsToSpecs ws specs)
    (held : ws.Holds typ) :
    Bounded.Agrees (m := Option) (searchM (m := Option) ws specs name depth typ)
      (searchM (m := Option) ws specs name ws.memberDepth typ) := by
  have agree (place : FileNode) (_ : IsTypeReference ws place) :
      Bounded.Agrees (m := Option) (specs place) (specs place) := .refl _
  have settled (n : Nat) : ∀ typ ∈ declared ws, Bounded.Agrees (m := Option)
      (searchM (m := Option) ws specs name n typ) (searchM (m := Option) ws specs name (declared ws).length typ) := by
    intro typ among
    refine Bounded.agrees_at_length (f := searchM (m := Option) ws specs name) (fun n typ among => ?_)
      (fun n still typ among => ?_) among
    · exact searchM_agrees leads agree (Nat.le_succ n) (holds_of_mem_declared among)
    · exact searchM_add_one_agrees leads agree
        (fun spec n specHeld kind typed => still _ (mem_declared specHeld kind typed)) (holds_of_mem_declared among)
  cases depth with
  | zero => exact .none _
  | succ depth =>
    have within : Bounded.Agrees (m := Option) (searchM (m := Option) ws specs name (depth + 1) typ)
        (searchM (m := Option) ws specs name ((declared ws).length + 1) typ) :=
      searchM_add_one_agrees leads agree
        (fun spec n specHeld kind typed => settled depth _ (mem_declared specHeld kind typed)) held
    exact within.trans (searchM_agrees leads agree (length_declared_lt ws).le held)

/-! Searches that come to an end -/

section

variable {specs : FileNode → Option (Option FileNode)} (leads : LeadsToSpecs ws specs)
  (ends : ∀ typ reference, ws.Holds typ → reference ∈ embedded typ → (specs reference).isSome = true)

include leads in
theorem isSome_collectBehind {path : List FileNode}
    {collectFrom : Option FileNode → FileNode → List FileNode → Option (List Declaration)}
    (refers : IsTypeReference ws reference) (answered : (specs reference).isSome = true)
    (below : ∀ spec n, ws.Holds spec → spec.node.kind = .typeSpec → spec.node.typeExpr = some n →
      path.contains spec = false → (collectFrom (some spec) ⟨spec.file, n⟩ (path ++ [spec])).isSome = true) :
    (collectBehind (m := Option) specs path collectFrom reference).isSome = true := by
  refine Bounded.isSome_bind answered fun found named => ?_
  cases found with
  | none => rfl
  | some spec =>
    obtain ⟨held, kind⟩ := leads reference spec refers named
    dsimp only
    cases fresh : path.contains spec with
    | true => rfl
    | false =>
      cases typed : spec.node.typeExpr with
      | none => rfl
      | some n => exact below spec n held kind typed fresh

include leads ends

/-- Where the types that are embedded can be looked up, collecting ends within the bound for the workspace. -/
theorem isSome_collectInM {owner : Option FileNode} {path : List FileNode} (held : ws.Holds typ)
    (listed : Listed ws path) (enough : ws.memberDepth < path.length + depth + 2) :
    (collectInM (m := Option) ws specs depth owner typ path).isSome = true := by
  have bound := listed.length_lt
  induction depth generalizing owner typ path with
  | zero => omega
  | succ depth ih =>
    refine Bounded.isSome_bind (Bounded.isSome_concatM fun reference member => ?_) fun _ _ => rfl
    refine isSome_collectBehind leads (isTypeReference_of_mem_embedded held member)
      (ends typ reference held member) fun spec n specHeld kind typed fresh => ?_
    have entered := listed.append fresh specHeld kind
    refine ih (specHeld.near (.childWhere typed)) entered ?_ entered.length_lt
    rw [List.length_append, List.length_singleton]
    omega

theorem isSome_collectM
    (named : ∀ target reference, pointee? typ = some target → reference? target = some reference →
      (specs reference).isSome = true)
    (held : ws.Holds typ) : (collectM (m := Option) ws specs ws.memberDepth typ).isSome = true := by
  unfold collectM
  cases pointed : pointee? typ with
  | none => rfl
  | some target =>
    have targetHeld := pointee?_holds held pointed
    refine Bounded.isSome_bind (isSome_collectInM leads ends targetHeld (listed_owner? targetHeld) (by omega))
      fun own _ => Bounded.isSome_bind ?_ fun ofNamed _ => rfl
    cases refers : reference? target with
    | none => rfl
    | some reference =>
      refine isSome_collectBehind leads (isTypeReference_of_reference? targetHeld refers)
        (named target reference pointed refers) fun spec n specHeld kind typed _ => ?_
      exact isSome_collectInM leads ends (specHeld.near (.childWhere typed)) (listed_singleton specHeld kind)
        (by omega)

end

end Members

/-! References -/

namespace Reference

variable {m : Type → Type} [Bounded m] [LawfulMonad m] {ws : Workspace} {r : Reference}
  {members members' depth more : Nat}

/-- A reference of the workspace. -/
def StandsIn (ws : Workspace) (r : Reference) : Prop :=
  ws.Holds ⟨r.file, r.node⟩ ∧ ofNode? r.file r.node = some r

theorem standsIn_of_isTypeReference {place : FileNode} (refers : Members.IsTypeReference ws place) :
    StandsIn ws ⟨.typeName, place.file, place.node⟩ :=
  ⟨refers.1, by simp [ofNode?, refers.2, Kind.referenceKind]⟩

/-- What stands before the dot of a reference of the workspace is in it as well. -/
theorem StandsIn.reference {inner : Reference} (stands : r.StandsIn ws)
    (qualified : r.qualifier? = some (.reference inner)) : inner.StandsIn ws := by
  unfold qualifier? at qualified
  split at qualified
  · cases qualified
  · obtain ⟨n, found, made⟩ := Option.map_eq_some_iff.mp qualified
    cases made
    exact ⟨stands.1.near (.childWhere found), by simp [ofNode?, Node.kind_of_child found, Kind.referenceKind]⟩
  · obtain ⟨e, found, made⟩ := Option.map_eq_some_iff.mp qualified
    split at made
    · rename_i refers
      cases made
      exact ⟨stands.1.near (.childWhere found), by simp [ofNode?, eq_of_beq refers, Kind.referenceKind]⟩
    · split at made <;> cases made

theorem StandsIn.literal {typ : FileNode} (stands : r.StandsIn ws)
    (qualified : r.qualifier? = some (.literal typ)) : ws.Holds typ := by
  obtain ⟨_, same | ⟨n, near, same | same⟩⟩ := qualifier?_cases qualified
  · cases same
  · cases same
  · cases same
    exact stands.1.near near

/-- Whatever a search with these bounds finds is declared in the workspace. -/
def FindsDeclared (ws : Workspace) (members depth : Nat) : Prop :=
  ∀ (r : Reference) (d : Declaration), r.StandsIn ws → r.answer? ws members depth = some (some d) → d.IsIn ws

theorem FindsDeclared.leadsToSpecs (finds : FindsDeclared ws members depth) :
    Members.LeadsToSpecs ws (ws.typeSpecWithin members depth) := by
  intro place spec refers named
  obtain ⟨found, answered, same⟩ := Option.bind_eq_some_iff.mp named
  obtain ⟨d, rfl, isSpec⟩ := Option.bind_eq_some_iff.mp (Option.some.inj same)
  have known := finds _ d (standsIn_of_isTypeReference refers) answered
  cases d with
  | directory path => cases isSpec
  | node target =>
    simp only [Declaration.typeSpec?] at isSpec
    split at isSpec
    · rename_i kind
      cases isSpec
      exact ⟨known.1, eq_of_beq kind⟩
    · cases isSpec

theorem typeSpecM_agrees
    (below : ∀ r : Reference, r.StandsIn ws →
      Bounded.Agrees (r.answer? ws members depth) (resolveWithinM (m := m) ws members' more r))
    (place : FileNode) (refers : Members.IsTypeReference ws place) :
    Bounded.Agrees (ws.typeSpecWithin members depth place)
      (typeSpecM (resolveWithinM (m := m) ws members' more) place) :=
  (below _ (standsIn_of_isTypeReference refers)).bind fun _ _ => .pure _

/-- One reference that has to be resolved for another one. -/
theorem answer?_add_one_agrees (finds : FindsDeclared ws members depth)
    (below : ∀ r : Reference, r.StandsIn ws →
      Bounded.Agrees (r.answer? ws members depth) (resolveWithinM (m := m) ws members' more r))
    (find : ∀ typ name, ws.Holds typ → Bounded.Agrees (ws.memberWithin members depth typ name)
      (Members.findM (m := m) ws (typeSpecM (resolveWithinM ws members' more)) members' typ name))
    (stands : r.StandsIn ws) :
    Bounded.Agrees (r.answer? ws members (depth + 1)) (resolveWithinM (m := m) ws members' (more + 1) r) := by
  unfold answer? resolveWithinM
  cases r.kind with
  | importPath => exact .pure _
  | expr | typeName =>
    cases r.name? with
    | none => exact .pure _
    | some name =>
      cases qualified : r.qualifier? with
      | none => exact .pure _
      | some qualifier =>
        cases qualifier with
        | other => exact .pure _
        | literal typ => exact find typ name (stands.literal qualified)
        | reference inner =>
          have standsInner := stands.reference qualified
          refine (below inner standsInner).andThen fun target found => ?_
          refine Bounded.Agrees.orElse ?_ (.pure _)
          cases typed : target.type? with
          | none => exact .pure _
          | some typ => exact find typ name (type?_holds (finds inner target standsInner found) typed)

/-- Larger bounds change no answer. -/
theorem answer?_agrees (finds : ∀ n < depth, FindsDeclared ws members n) (wider : members ≤ members')
    (deeper : depth ≤ more) (stands : r.StandsIn ws) :
    Bounded.Agrees (r.answer? ws members depth) (resolveWithinM (m := m) ws members' more r) := by
  induction depth generalizing more r with
  | zero => exact .none _
  | succ depth ih =>
    obtain ⟨more, rfl⟩ : ∃ n, more = n + 1 := ⟨more - 1, by omega⟩
    have declared := finds depth (Nat.lt_succ_self depth)
    have below (r : Reference) (stands : r.StandsIn ws) :
        Bounded.Agrees (r.answer? ws members depth) (resolveWithinM (m := m) ws members' more r) :=
      ih (fun n less => finds n (by omega)) (by omega) stands
    refine answer?_add_one_agrees declared below (fun typ name held => ?_) stands
    exact Members.findM_agrees declared.leadsToSpecs (typeSpecM_agrees below)
      (fun _ => Members.searchM_agrees declared.leadsToSpecs (typeSpecM_agrees below) wider) held

theorem findsDeclared_memberDepth (ws : Workspace) (depth : Nat) : FindsDeclared ws ws.memberDepth depth := by
  induction depth using Nat.strong_induction_on with
  | h depth ih =>
    intro r d stands found
    have resolved : resolveWithin ws depth r = some d :=
      answer?_agrees (m := Id) ih le_rfl le_rfl stands _ found
    exact (faithful_resolveWithin ws depth r d stands.1 resolved).1

/-- An answer does not need a larger bound on members than that for the workspace. -/
theorem answer?_memberDepth (stands : r.StandsIn ws) :
    Bounded.Agrees (m := Option) (r.answer? ws members depth) (r.answer? ws ws.memberDepth depth) := by
  induction depth generalizing r with
  | zero => exact .none _
  | succ depth ih =>
    have below (r : Reference) (stands : r.StandsIn ws) :
        Bounded.Agrees (m := Option) (r.answer? ws members depth) (r.answer? ws ws.memberDepth depth) := ih stands
    have declared : FindsDeclared ws members depth := by
      intro r d stands found
      exact findsDeclared_memberDepth ws depth r d stands (below r stands _ found)
    refine answer?_add_one_agrees declared below (fun typ name held => ?_) stands
    refine Members.findM_agrees declared.leadsToSpecs (typeSpecM_agrees below) (fun typ held => ?_) held
    exact (Members.searchM_memberDepth declared.leadsToSpecs held).trans
      (Members.searchM_agrees declared.leadsToSpecs (typeSpecM_agrees below) le_rfl held)

/-- All references of the workspace. -/
def all (ws : Workspace) : List Reference :=
  (ws.nodes.filter (·.node.kind.referenceKind.isSome)).filterMap fun place => ofNode? place.file place.node

theorem mem_all (stands : r.StandsIn ws) : r ∈ all ws := by
  obtain ⟨kind, refers, _⟩ := Option.map_eq_some_iff.mp stands.2
  refine List.mem_filterMap.mpr ⟨⟨r.file, r.node⟩, ?_, stands.2⟩
  exact List.mem_filter.mpr ⟨Workspace.mem_nodes stands.1, by simp [refers]⟩

theorem standsIn_of_mem_all (member : r ∈ all ws) : r.StandsIn ws := by
  obtain ⟨place, among, made⟩ := List.mem_filterMap.mp member
  obtain ⟨kind, refers, rfl⟩ := Option.map_eq_some_iff.mp made
  exact ⟨Workspace.holds_of_mem_nodes (List.mem_filter.mp among).1, made⟩

theorem length_all_lt (ws : Workspace) : (all ws).length < ws.referenceDepth :=
  Nat.lt_succ_of_le (List.length_filterMap_le ..)

/-- An answer does not need a larger bound on references than that for the workspace: there are no more
references to resolve one for the other than stand in it. -/
theorem answer?_referenceDepth (stands : r.StandsIn ws) :
    Bounded.Agrees (m := Option) (r.answer? ws ws.memberDepth depth)
      (r.answer? ws ws.memberDepth ws.referenceDepth) := by
  have deeper {depth more : Nat} (le : depth ≤ more) {r : Reference} (stands : r.StandsIn ws) :
      Bounded.Agrees (m := Option) (r.answer? ws ws.memberDepth depth) (r.answer? ws ws.memberDepth more) :=
    answer?_agrees (fun n _ => findsDeclared_memberDepth ws n) le_rfl le stands
  have settled : Bounded.Agrees (m := Option) (r.answer? ws ws.memberDepth depth)
      (r.answer? ws ws.memberDepth (all ws).length) := by
    refine Bounded.agrees_at_length (f := answer? ws ws.memberDepth) (fun n r among => ?_)
      (fun n still r among => ?_) (mem_all stands)
    · exact deeper (Nat.le_succ n) (standsIn_of_mem_all among)
    · have below (r : Reference) (stands : r.StandsIn ws) := still r (mem_all stands)
      have declared := findsDeclared_memberDepth ws (n + 1)
      refine answer?_add_one_agrees declared below (fun typ name held => ?_) (standsIn_of_mem_all among)
      exact Members.findM_agrees declared.leadsToSpecs (typeSpecM_agrees below)
        (fun _ => Members.searchM_agrees declared.leadsToSpecs (typeSpecM_agrees below) le_rfl) held
  exact settled.trans (deeper (length_all_lt ws).le stands)

/-- The bounds for the workspace suffice: an answer that is found with any bounds is found with these, and it is
what the reference stands for. -/
theorem answer?_eq {found : Option Declaration} (stands : r.StandsIn ws)
    (answered : r.answer? ws members depth = some found) :
    r.answer? ws ws.memberDepth ws.referenceDepth = some found ∧ r.resolve ws = found := by
  have known := answer?_referenceDepth stands found (answer?_memberDepth stands found answered)
  refine ⟨known, ?_⟩
  exact answer?_agrees (m := Id) (fun n _ => findsDeclared_memberDepth ws n) le_rfl le_rfl stands found known

/-- Looking for what the name of a reference stands for comes to `found` if nothing bounds it. -/
def StandsFor (ws : Workspace) (r : Reference) (found : Option Declaration) : Prop :=
  ∃ members depth, r.answer? ws members depth = some found

theorem ends_iff (stands : r.StandsIn ws) : r.ends ws = true ↔ ∃ found, r.StandsFor ws found :=
  Bounded.isSome_iff_exists_bounds (f := fun members depth => r.answer? ws members depth)
    fun _ _ _ answered => (answer?_eq stands answered).1

/-- What is found with the bounds for the workspace is what is found without one, wherever that ends. -/
theorem StandsFor.resolve_eq {found : Option Declaration} (means : r.StandsFor ws found) (stands : r.StandsIn ws) :
    r.resolve ws = found := by
  obtain ⟨members, depth, answered⟩ := means
  exact (answer?_eq stands answered).2

end Reference

namespace Workspace

variable {ws : Workspace} {typ place : FileNode} {members depth : Nat}

/-- Looking for the type declaration that a reference names comes to `found` if nothing bounds it. -/
def NamesSpec (ws : Workspace) (place : FileNode) (found : Option FileNode) : Prop :=
  ∃ members depth, ws.typeSpecWithin members depth place = some found

/-- Looking for a member of a type comes to `found` if nothing bounds it. -/
def FindsMember (ws : Workspace) (typ : FileNode) (name : String) (found : Option Declaration) : Prop :=
  ∃ members depth, ws.memberWithin members depth typ name = some found

/-- Listing the members of a type comes to `items` if nothing bounds it. -/
def ListsMembers (ws : Workspace) (typ : FileNode) (items : List Item) : Prop :=
  ∃ members depth, ws.membersWithin members depth typ = some items

theorem typeSpecWithin_eq {found : Option FileNode} (refers : Members.IsTypeReference ws place)
    (answered : ws.typeSpecWithin members depth place = some found) :
    ws.typeSpecWithin ws.memberDepth ws.referenceDepth place = some found ∧ ws.typeSpecOf place = found := by
  obtain ⟨d, known, same⟩ := Option.bind_eq_some_iff.mp answered
  obtain ⟨again, resolved⟩ := Reference.answer?_eq (Reference.standsIn_of_isTypeReference refers) known
  cases same
  exact ⟨Option.bind_eq_some_iff.mpr ⟨d, again, rfl⟩, congrArg (Option.bind · Declaration.typeSpec?) resolved⟩

theorem NamesSpec.typeSpecOf_eq {found : Option FileNode} (names : ws.NamesSpec place found)
    (refers : Members.IsTypeReference ws place) : ws.typeSpecOf place = found := by
  obtain ⟨members, depth, answered⟩ := names
  exact (typeSpecWithin_eq refers answered).2

theorem leadsToSpecs (ws : Workspace) (members depth : Nat) :
    Members.LeadsToSpecs ws (ws.typeSpecWithin members depth) := by
  refine Reference.FindsDeclared.leadsToSpecs fun r d stands found => ?_
  exact (Reference.faithful_resolve ws r d stands.1 (Reference.answer?_eq stands found).2).1

theorem typeSpecWithin_agrees (place : FileNode) (refers : Members.IsTypeReference ws place) :
    Bounded.Agrees (m := Option) (ws.typeSpecWithin members depth place)
      (ws.typeSpecWithin ws.memberDepth ws.referenceDepth place) :=
  fun _ answered => (typeSpecWithin_eq refers answered).1

theorem typeSpecOf_agrees (place : FileNode) (refers : Members.IsTypeReference ws place) :
    Bounded.Agrees (m := Id) (ws.typeSpecWithin members depth place) (ws.typeSpecOf place) :=
  fun _ answered => (typeSpecWithin_eq refers answered).2

/-- The bounds for the workspace suffice for finding a member. -/
theorem memberWithin_eq {name : String} {found : Option Declaration} (held : ws.Holds typ)
    (answered : ws.memberWithin members depth typ name = some found) :
    ws.memberWithin ws.memberDepth ws.referenceDepth typ name = some found ∧ ws.member? typ name = found := by
  have leads := ws.leadsToSpecs members depth
  have known : ws.memberWithin ws.memberDepth ws.referenceDepth typ name = some found := by
    refine Members.findM_agrees leads typeSpecWithin_agrees (fun typ held => ?_) held found answered
    exact (Members.searchM_memberDepth leads held).trans
      (Members.searchM_agrees leads typeSpecWithin_agrees le_rfl held)
  have programLeads := ws.leadsToSpecs ws.memberDepth ws.referenceDepth
  refine ⟨known, Members.findM_agrees (m := Id) programLeads typeSpecOf_agrees (fun typ held => ?_) held found known⟩
  exact Members.searchM_agrees (m := Id) programLeads typeSpecOf_agrees le_rfl held

theorem memberEnds_iff {name : String} (held : ws.Holds typ) :
    ws.memberEnds typ name = true ↔ ∃ found, ws.FindsMember typ name found :=
  Bounded.isSome_iff_exists_bounds (f := fun members depth => ws.memberWithin members depth typ name)
    fun _ _ _ answered => (memberWithin_eq held answered).1

theorem FindsMember.member?_eq {name : String} {found : Option Declaration} (finds : ws.FindsMember typ name found)
    (held : ws.Holds typ) : ws.member? typ name = found := by
  obtain ⟨members, depth, answered⟩ := finds
  exact (memberWithin_eq held answered).2

/-- The bounds for the workspace suffice for listing members. -/
theorem membersWithin_eq {items : List Item} (held : ws.Holds typ)
    (answered : ws.membersWithin members depth typ = some items) :
    ws.membersWithin ws.memberDepth ws.referenceDepth typ = some items ∧ ws.members typ = items := by
  have leads := ws.leadsToSpecs members depth
  exact ⟨Members.collectM_agrees leads typeSpecWithin_agrees held items answered,
    Members.collectM_agrees (m := Id) leads typeSpecOf_agrees held items answered⟩

theorem membersEnd_iff (held : ws.Holds typ) : ws.membersEnd typ = true ↔ ∃ items, ws.ListsMembers typ items :=
  Bounded.isSome_iff_exists_bounds (f := fun members depth => ws.membersWithin members depth typ)
    fun _ _ _ answered => (membersWithin_eq held answered).1

theorem ListsMembers.members_eq {items : List Item} (lists : ws.ListsMembers typ items) (held : ws.Holds typ) :
    ws.members typ = items := by
  obtain ⟨members, depth, answered⟩ := lists
  exact (membersWithin_eq held answered).2

end Workspace

namespace Members

variable {ws : Workspace} {typ : FileNode}

/-- Looking up the types that are embedded comes to an end. -/
def EmbeddedEnd (ws : Workspace) : Prop :=
  ∀ typ reference, ws.Holds typ → reference ∈ embedded typ → ∃ found, ws.NamesSpec reference found

/-- Looking up the name that a type or what it points to is comes to an end. -/
def NamedEnds (ws : Workspace) (typ : FileNode) : Prop :=
  ∀ target reference, pointee? typ = some target → reference? target = some reference →
    ∃ found, ws.NamesSpec reference found

theorem isSome_typeSpecWithin {reference : FileNode} (refers : IsTypeReference ws reference)
    (ends : ∃ found, ws.NamesSpec reference found) :
    (ws.typeSpecWithin ws.memberDepth ws.referenceDepth reference).isSome = true := by
  obtain ⟨found, members, depth, answered⟩ := ends
  exact Option.isSome_iff_exists.mpr ⟨found, (Workspace.typeSpecWithin_eq refers answered).1⟩

/-- Where the types that are embedded can be looked up, listing members ends exactly if the name can be looked up
that the type or what it points to is. -/
theorem exists_listsMembers_iff (ends : EmbeddedEnd ws) (held : ws.Holds typ) :
    (∃ items, ws.ListsMembers typ items) ↔ NamedEnds ws typ := by
  constructor
  · rintro ⟨items, members, depth, listed⟩ target reference pointed refers
    rw [Workspace.membersWithin, collectM, pointed] at listed
    obtain ⟨own, _, further⟩ := Option.bind_eq_some_iff.mp listed
    obtain ⟨ofNamed, behind, _⟩ := Option.bind_eq_some_iff.mp further
    rw [refers] at behind
    obtain ⟨found, answered, _⟩ := Option.bind_eq_some_iff.mp behind
    exact ⟨found, members, depth, answered⟩
  · intro endsNamed
    rw [← Workspace.membersEnd_iff held]
    refine isSome_collectM (ws.leadsToSpecs _ _) (fun typ reference held member => ?_)
      (fun target reference pointed refers => ?_) held
    · exact isSome_typeSpecWithin (isTypeReference_of_mem_embedded held member) (ends typ reference held member)
    · exact isSome_typeSpecWithin (isTypeReference_of_reference? (pointee?_holds held pointed) refers)
        (endsNamed target reference pointed refers)

theorem isSome_searchBehind {searchIn : FileNode → Option (Option Declaration)} {reference : FileNode}
    (refers : IsTypeReference ws reference) (ends : ∃ found, ws.NamesSpec reference found)
    (below : ∀ spec n, ws.typeSpecOf reference = some spec → spec.node.typeExpr = some n →
      (searchIn ⟨spec.file, n⟩).isSome = true) :
    (searchBehind (m := Option) (ws.typeSpecWithin ws.memberDepth ws.referenceDepth) typ searchIn reference).isSome =
      true := by
  refine Bounded.isSome_bind (isSome_typeSpecWithin refers ends) fun found named => ?_
  cases found with
  | none => rfl
  | some spec =>
    have meant := (Workspace.typeSpecWithin_eq refers named).2
    dsimp only
    cases typed : spec.node.typeExpr with
    | none => rfl
    | some n =>
      dsimp only
      split
      · rfl
      · exact below spec n meant typed

/-- Where no way inward comes to a declaration twice, looking for a member ends within the bound for the
workspace. -/
theorem isSome_searchM {name : String} {depth : Nat} {path : List FileNode} (ends : EmbeddedEnd ws)
    (held : ws.Holds typ) (acyclic : Acyclic ws typ path) (listed : Listed ws path)
    (enough : ws.memberDepth < path.length + depth + 2) :
    (searchM (m := Option) ws (ws.typeSpecWithin ws.memberDepth ws.referenceDepth) name depth typ).isSome = true := by
  have bound := listed.length_lt
  induction depth generalizing typ path with
  | zero => omega
  | succ depth ih =>
    refine Bounded.isSome_orElse rfl (Bounded.isSome_orElse (Bounded.isSome_findSomeM? fun reference member => ?_) rfl)
    refine isSome_searchBehind (isTypeReference_of_mem_embedded held member) (ends typ reference held member)
      fun spec n meant typed => ?_
    have embeds : Embeds ws typ spec ⟨spec.file, n⟩ := ⟨reference, member, meant, n, typed, rfl⟩
    have specHeld := staysIn_typeSpecOf ws reference spec (embedded_holds held member) meant
    have entered := listed.append (acyclic.fresh (.here typ path) embeds) specHeld (kind_of_typeSpecOf meant)
    refine ih (specHeld.near (.childWhere typed)) (acyclic.embed embeds) entered ?_ entered.length_lt
    rw [List.length_append, List.length_singleton]
    omega

/-- Where types can be looked up and none embeds itself by way of others, looking for a member ends. -/
theorem exists_findsMember (ends : EmbeddedEnd ws) (endsNamed : NamedEnds ws typ) (free : FreeOfCycles ws typ)
    (held : ws.Holds typ) (name : String) : ∃ found, ws.FindsMember typ name found := by
  have own : ∃ path, Acyclic ws typ path ∧ Listed ws path := by
    by_cases pointer : typ.node.kind = .pointerType
    · exact ⟨[], acyclic_of_kind (by simp [pointer]) [], List.nodup_nil, nofun⟩
    · exact ⟨_, free.own (pointee?_of_ne pointer), listed_owner? held⟩
  obtain ⟨path, acyclic, listed⟩ := own
  rw [← Workspace.memberEnds_iff held]
  refine Bounded.isSome_orElse (isSome_searchM ends held acyclic listed (by omega)) ?_
  cases pointed : pointee? typ with
  | none => rfl
  | some target =>
    have targetHeld := pointee?_holds held pointed
    cases refers : reference? target with
    | none => simp only [Option.bind_some, refers]; rfl
    | some reference =>
      have isReference := isTypeReference_of_reference? targetHeld refers
      simp only [Option.bind_some, refers]
      refine isSome_searchBehind isReference (endsNamed target reference pointed refers)
        fun spec n meant typed => ?_
      have specHeld := staysIn_typeSpecOf ws reference spec isReference.1 meant
      exact isSome_searchM ends (specHeld.near (.childWhere typed)) (free.named pointed refers meant typed).2
        (listed_singleton specHeld (kind_of_typeSpecOf meant)) (by omega)

end Members

end GoNav
