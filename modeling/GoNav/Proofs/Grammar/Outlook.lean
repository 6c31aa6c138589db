import GoNav.Proofs.Grammar.Does

namespace GoNav.Grammar

/-- The kinds that a token may have: any, or those of a list. -/
abbrev Place := Option (List Kind)

def Place.admits : Place → Kind → Bool
  | none, _ => true
  | some kinds, kind => kinds.contains kind

/-- Whether kinds of tokens are as places say, with something that is true of those behind. -/
def fits (behind : List Kind → Bool) : List Place → List Kind → Bool
  | [], kinds => behind kinds
  | _ :: _, [] => false
  | place :: places, kind :: kinds => place.admits kind && fits behind places kinds

/-- Whether kinds of tokens are those of `name {, name}` and then as places say. -/
def namesThen (places : List Place) : List Kind → Bool
  | .ident :: rest =>
    fits (fun _ => true) places rest ||
      match rest with
      | .comma :: more => namesThen places more
      | _ => false
  | _ => false

/-- What is known of the tokens ahead: of the first ones place by place, and perhaps that names between
commas follow, and what stands behind those. -/
structure Outlook where
  places : List Place
  names : Option (List Place) := none
  deriving DecidableEq, Repr

namespace Outlook

/-- Nothing is known. -/
def unknown : Outlook := ⟨[], none⟩

def covers (o : Outlook) (kinds : List Kind) : Bool :=
  fits (fun rest => o.names.all (namesThen · rest)) o.places kinds

/-- What is known of the next token, if it is known to be there. -/
def first (o : Outlook) : Option Place :=
  match o.places, o.names with
  | place :: _, _ => some place
  | [], some _ => some (some [.ident])
  | [], none => none

/-- What is known once the next token is taken. -/
def bump (o : Outlook) : List Outlook :=
  match o.places, o.names with
  | _ :: rest, names => [⟨rest, names⟩]
  | [], some rest => [⟨rest, none⟩, ⟨[some [.comma]], some rest⟩]
  | [], none => [unknown]

/-- Changes what is known of one of the places, unless nothing can stand there any more. -/
def narrow (change : Place → Place) : Nat → List Place → Option (List Place)
  | _, [] => some []
  | 0, place :: rest =>
    let place := change place
    if place = some [] then none else some (place :: rest)
  | n + 1, place :: rest => (narrow change n rest).map (place :: ·)

/-- Leaves of the kinds of a place those in a list. -/
def only (kinds : List Kind) : Place → Place
  | none => some kinds
  | some old => some (old.filter kinds.contains)

/-- Leaves of the kinds of a place those that are not in a list. -/
def without (kinds : List Kind) : Place → Place
  | none => none
  | some old => some (old.filter (!kinds.contains ·))

/-- What is known if the token `n` places ahead is there and is of one of the kinds. -/
def require (n : Nat) (kinds : List Kind) (o : Outlook) : List Outlook :=
  if n < o.places.length then ((narrow (only kinds) n o.places).map (⟨·, o.names⟩)).toList
  else
    match o.names with
    | none => [⟨o.places ++ List.replicate (n - o.places.length) none ++ [some kinds], none⟩]
    | some _ => if n = o.places.length ∧ kinds.contains .ident = false then [] else [o]

/-- What is known if no token of one of the kinds is `n` places ahead. -/
def exclude (n : Nat) (kinds : List Kind) (o : Outlook) : List Outlook :=
  if n < o.places.length then ((narrow (without kinds) n o.places).map (⟨·, o.names⟩)).toList
  else if n = o.places.length ∧ o.names.isSome ∧ kinds.contains .ident then [] else [o]

/-- What is known if there is a token ahead. -/
def more (o : Outlook) : Outlook :=
  if o = unknown then ⟨[none], none⟩ else o

/-- Whether a place admits no more than another. -/
def within : Place → Place → Bool
  | _, none => true
  | none, some _ => false
  | some kinds, some others => kinds.all others.contains

end Outlook

/-- What is known when a question has been answered. -/
def Look.learn : Look → Bool → Outlook → List Outlook
  | .current kind, true, o => o.require 0 [kind]
  | .current kind, false, o => o.exclude 0 [kind]
  | .currentAny kinds, true, o => o.require 0 kinds
  | .currentAny kinds, false, o => o.exclude 0 kinds
  | .next n kind, true, o => if kind = .error then [o] else o.require n [kind]
  | .next n kind, false, o => o.exclude n [kind]
  | .atEnd, true, o => if o = .unknown then [o] else []
  | .atEnd, false, o => [o.more]
  | .implicitEnd, false, o => [o.more]
  | .shortDefinition, true, o =>
    if o = .unknown then [⟨[], some [some [.colonEq]]⟩] else [o]
  | .rangeDefinition, true, o =>
    if o = ⟨[], some [some [.colonEq]]⟩ then [⟨[], some [some [.colonEq], some [.rangeKw]]⟩] else [o]
  | .not look, answer, o => look.learn (!answer) o
  | .and left right, true, o => (left.learn true o).flatMap (right.learn true)
  | .and left right, false, o => left.learn false o ++ (left.learn true o).flatMap (right.learn false)
  | .or left right, true, o => left.learn true o ++ (left.learn false o).flatMap (right.learn true)
  | .or left right, false, o => (left.learn false o).flatMap (right.learn false)
  | _, _, o => [o]

/-! What is known stays true -/

theorem fits_behind {behind : List Kind → Bool} {places : List Place} {kinds : List Kind}
    (fit : fits behind places kinds = true) : behind (kinds.drop places.length) = true := by
  induction places generalizing kinds with
  | nil => exact fit
  | cons place places ih =>
    cases kinds with
    | nil => cases fit
    | cons kind kinds => exact ih (Bool.and_eq_true_iff.mp fit).2

theorem exists_of_namesThen {places : List Place} {kinds : List Kind}
    (named : namesThen places kinds = true) :
    ∃ rest, kinds = .ident :: rest ∧ (fits (fun _ => true) places rest = true ∨
      ∃ more, rest = .comma :: more ∧ namesThen places more = true) := by
  unfold namesThen at named
  split at named
  · rename_i rest
    refine ⟨rest, rfl, ?_⟩
    rcases Bool.or_eq_true_iff.mp named with alone | further
    · exact Or.inl alone
    · split at further
      · exact Or.inr ⟨_, rfl, further⟩
      · cases further
  · cases named

theorem fits_extend {places : List Place} {kinds wanted : List Kind} {kind : Kind} (m : Nat)
    (fit : fits (fun _ => true) places kinds = true) (there : kinds[places.length + m]? = some kind)
    (among : wanted.contains kind = true) :
    fits (fun _ => true) (places ++ List.replicate m none ++ [some wanted]) kinds = true := by
  induction places generalizing kinds with
  | nil =>
    induction m generalizing kinds with
    | zero =>
      cases kinds with
      | nil => cases there
      | cons first rest =>
        cases there
        exact Bool.and_eq_true_iff.mpr ⟨among, rfl⟩
    | succ m ih =>
      cases kinds with
      | nil => cases there
      | cons first rest =>
        have later := @ih rest rfl (by simpa [Nat.add_assoc] using there)
        simpa [List.replicate_succ, fits, Place.admits] using later
  | cons place places ih =>
    cases kinds with
    | nil => cases fit
    | cons first rest =>
      obtain ⟨here, behind⟩ := Bool.and_eq_true_iff.mp fit
      have later := ih behind (by simpa [Nat.add_right_comm] using there)
      simpa [fits, here] using later

namespace Outlook

variable {o : Outlook} {kinds wanted : List Kind} {n : Nat}

theorem covers_unknown (kinds : List Kind) : unknown.covers kinds = true := rfl

theorem fits_narrow {behind : List Kind → Bool} {change : Place → Place} {places : List Place}
    (fit : fits behind places kinds = true)
    (kept : ∀ kind, kinds[n]? = some kind → ∀ place : Place, place.admits kind = true →
      (change place).admits kind = true) :
    ∃ narrowed, narrow change n places = some narrowed ∧ fits behind narrowed kinds = true := by
  induction places generalizing n kinds with
  | nil => exact ⟨[], by simp only [narrow], fit⟩
  | cons place places ih =>
    cases kinds with
    | nil => cases fit
    | cons first rest =>
      obtain ⟨here, later⟩ := Bool.and_eq_true_iff.mp fit
      cases n with
      | zero =>
        have admitted := kept first rfl place here
        have possible : change place ≠ some [] := by
          intro none
          rw [none] at admitted
          cases admitted
        exact ⟨change place :: places, by rw [narrow, if_neg possible],
          Bool.and_eq_true_iff.mpr ⟨admitted, later⟩⟩
      | succ n =>
        obtain ⟨narrowed, found, fit⟩ := ih later fun kind there => kept kind (by simpa using there)
        exact ⟨place :: narrowed, by rw [narrow, found, Option.map_some],
          Bool.and_eq_true_iff.mpr ⟨here, fit⟩⟩

theorem covers_narrow {change : Place → Place} (covered : o.covers kinds = true)
    (kept : ∀ kind, kinds[n]? = some kind → ∀ place : Place, place.admits kind = true →
      (change place).admits kind = true) :
    ∃ narrower ∈ ((narrow change n o.places).map (⟨·, o.names⟩ : List Place → Outlook)).toList,
      narrower.covers kinds = true := by
  obtain ⟨narrowed, found, fit⟩ := fits_narrow covered kept
  exact ⟨⟨narrowed, o.names⟩, by simp [found], fit⟩

/-- Behind the places that are known one by one stands a name, if names are known to follow. -/
theorem ident_of_names {rest : List Place} (covered : o.covers kinds = true)
    (names : o.names = some rest) : kinds[o.places.length]? = some .ident := by
  have behind := fits_behind covered
  rw [names] at behind
  obtain ⟨more, split, _⟩ := exists_of_namesThen behind
  have first := congrArg (·[0]?) split
  simpa using first

theorem exists_require {kind : Kind} (covered : o.covers kinds = true) (there : kinds[n]? = some kind)
    (among : wanted.contains kind = true) : ∃ known ∈ o.require n wanted, known.covers kinds = true := by
  unfold require
  split
  · refine covers_narrow covered fun other same place admitted => ?_
    cases there.symm.trans same
    cases place with
    | none => exact among
    | some old =>
      simp only [Place.admits, only, List.contains_iff_mem, List.mem_filter] at admitted among ⊢
      exact ⟨admitted, among⟩
  · rename_i far
    split
    · rename_i none
      refine ⟨_, List.mem_singleton.mpr rfl, ?_⟩
      have plain : fits (fun _ => true) o.places kinds = true := by
        simpa [covers, none] using covered
      have place : kinds[o.places.length + (n - o.places.length)]? = some kind := by
        rw [Nat.add_sub_cancel' (by omega)]
        exact there
      exact fits_extend _ plain place among
    · rename_i rest names
      rw [if_neg]
      · exact ⟨o, List.mem_singleton.mpr rfl, covered⟩
      · rintro ⟨rfl, excluded⟩
        cases (ident_of_names covered names).symm.trans there
        rw [among] at excluded
        cases excluded

theorem exists_exclude (covered : o.covers kinds = true)
    (absent : ∀ kind, kinds[n]? = some kind → wanted.contains kind = false) :
    ∃ known ∈ o.exclude n wanted, known.covers kinds = true := by
  unfold exclude
  split
  · refine covers_narrow covered fun kind there place admitted => ?_
    cases place with
    | none => exact admitted
    | some old =>
      have excluded := absent kind there
      simp only [Place.admits, without, List.contains_iff_mem, List.mem_filter] at admitted ⊢
      exact ⟨admitted, by rw [excluded]; rfl⟩
  · rw [if_neg]
    · exact ⟨o, List.mem_singleton.mpr rfl, covered⟩
    · rintro ⟨rfl, some, listed⟩
      obtain ⟨rest, names⟩ := Option.isSome_iff_exists.mp some
      rw [absent _ (ident_of_names covered names)] at listed
      cases listed

theorem covers_more (covered : o.covers kinds = true) (more : kinds ≠ []) : o.more.covers kinds = true := by
  unfold Outlook.more
  split
  · cases kinds with
    | nil => exact absurd rfl more
    | cons kind rest => rfl
  · exact covered

/-- Only where nothing is known can there be no token ahead. -/
theorem eq_unknown (covered : o.covers [] = true) : o = unknown := by
  obtain ⟨places, names⟩ := o
  cases places with
  | cons place rest => cases covered
  | nil =>
    cases names with
    | none => rfl
    | some rest => cases covered

theorem exists_of_first {place : Place} (covered : o.covers kinds = true) (known : o.first = some place) :
    ∃ kind rest, kinds = kind :: rest ∧ place.admits kind = true := by
  obtain ⟨places, names⟩ := o
  cases places with
  | cons next later =>
    cases known
    cases kinds with
    | nil => cases covered
    | cons kind rest => exact ⟨kind, rest, rfl, (Bool.and_eq_true_iff.mp covered).1⟩
  | nil =>
    cases names with
    | none => cases known
    | some behind =>
      cases known
      obtain ⟨rest, rfl, _⟩ := exists_of_namesThen (fits_behind covered)
      exact ⟨.ident, rest, rfl, rfl⟩

theorem exists_bump (covered : o.covers kinds = true) : ∃ known ∈ o.bump, known.covers kinds.tail = true := by
  obtain ⟨places, names⟩ := o
  cases places with
  | cons next later =>
    cases kinds with
    | nil => cases covered
    | cons kind rest =>
      exact ⟨⟨later, names⟩, List.mem_singleton.mpr rfl, (Bool.and_eq_true_iff.mp covered).2⟩
  | nil =>
    cases names with
    | none => exact ⟨unknown, List.mem_singleton.mpr rfl, rfl⟩
    | some behind =>
      obtain ⟨rest, rfl, alone | ⟨more, rfl, further⟩⟩ := exists_of_namesThen (fits_behind covered)
      · exact ⟨⟨behind, none⟩, List.mem_cons_self .., alone⟩
      · refine ⟨⟨[some [.comma]], some behind⟩, List.mem_cons_of_mem _ (List.mem_singleton.mpr rfl), ?_⟩
        simp [covers, fits, Place.admits, further]

theorem admits_of_within {place wider : Place} {kind : Kind} (narrower : within place wider = true)
    (admitted : place.admits kind = true) : wider.admits kind = true := by
  cases wider with
  | none => rfl
  | some others =>
    cases place with
    | none => cases narrower
    | some kinds =>
      simp only [within, List.all_eq_true] at narrower
      exact narrower kind (List.contains_iff_mem.mp admitted)

end Outlook

/-- What is ahead when names are defined. -/
theorem namesThen_of_definesShort {kinds : List Kind} (defines : definesShort kinds = true) :
    namesThen [some [.colonEq]] kinds = true := by
  induction kinds using definesShort.induct with
  | case1 rest => simp [namesThen, fits, Place.admits]
  | case2 rest ih =>
    rw [definesShort] at defines
    simp [namesThen, ih defines]
  | case3 kinds other more =>
    unfold definesShort at defines
    split at defines
    · exact absurd rfl (other _)
    · exact absurd rfl (more _)
    · cases defines

/-- If the first `:=` is followed by `range`, so is one behind names. -/
theorem namesThen_range {kinds : List Kind} (named : namesThen [some [.colonEq]] kinds = true)
    (ranges : rangeBehindDefine kinds = true) :
    namesThen [some [.colonEq], some [.rangeKw]] kinds = true := by
  obtain ⟨rest, rfl, alone | ⟨more, rfl, further⟩⟩ := exists_of_namesThen named
  · cases rest with
    | nil => cases alone
    | cons kind rest =>
      have define : kind = .colonEq := by simpa [fits, Place.admits] using alone
      subst define
      cases rest with
      | nil => cases ranges
      | cons next rest =>
        have range : next = .rangeKw := by simpa [rangeBehindDefine] using ranges
        simp [namesThen, fits, Place.admits, range]
  · have later := namesThen_range further ranges
    simp [namesThen, later]
termination_by kinds.length

/-- A token that is not there has no kind that is asked for. -/
theorem View.kindAt_eq {v : View} {n : Nat} {kind : Kind}
    (there : (v.ahead.map Lexeme.kind)[n]? = some kind) : v.kindAt n = kind := by
  rw [List.getElem?_map] at there
  rw [View.kindAt, there]
  rfl

namespace Look

variable {v : View}

theorem exists_currentAny {o : Outlook} (wanted : List Kind)
    (covered : o.covers (v.ahead.map Lexeme.kind) = true) :
    ∃ known ∈ (currentAny wanted).learn ((currentAny wanted).holds v) o,
      known.covers (v.ahead.map Lexeme.kind) = true := by
  cases answer : (currentAny wanted).holds v with
  | true =>
    rw [holds] at answer
    cases ahead : v.ahead with
    | nil => rw [ahead] at answer; cases answer
    | cons l rest =>
      rw [ahead] at answer covered
      exact Outlook.exists_require covered rfl answer
  | false =>
    refine Outlook.exists_exclude covered fun kind there => ?_
    rw [holds] at answer
    cases ahead : v.ahead with
    | nil => rw [ahead] at there; cases there
    | cons l rest =>
      rw [ahead] at there answer
      cases there
      exact answer

theorem exists_next {o : Outlook} (n : Nat) (kind : Kind)
    (covered : o.covers (v.ahead.map Lexeme.kind) = true) :
    ∃ known ∈ (next n kind).learn ((next n kind).holds v) o,
      known.covers (v.ahead.map Lexeme.kind) = true := by
  cases answer : (next n kind).holds v with
  | true =>
    rw [learn]
    split
    · exact ⟨o, List.mem_singleton.mpr rfl, covered⟩
    · rename_i token
      cases there : (v.ahead.map Lexeme.kind)[n]? with
      | none =>
        rw [List.getElem?_map] at there
        rw [holds, View.kindAt, there, beq_iff_eq] at answer
        exact absurd answer.symm token
      | some found =>
        rw [holds, View.kindAt_eq there, beq_iff_eq] at answer
        exact Outlook.exists_require covered there (by simp [answer])
  | false =>
    refine Outlook.exists_exclude covered fun found there => ?_
    rw [holds, View.kindAt_eq there, beq_eq_false_iff_ne] at answer
    simpa using answer

theorem exists_more {o : Outlook} (covered : o.covers (v.ahead.map Lexeme.kind) = true)
    (more : v.ahead.isEmpty = false) :
    ∃ known ∈ [o.more], known.covers (v.ahead.map Lexeme.kind) = true :=
  ⟨o.more, List.mem_singleton.mpr rfl, Outlook.covers_more covered (by simpa using more)⟩

theorem exists_both {left right : Look} {o : Outlook} {first second : Bool}
    (onLeft : ∃ known ∈ left.learn first o, known.covers (v.ahead.map Lexeme.kind) = true)
    (onRight : ∀ o : Outlook, o.covers (v.ahead.map Lexeme.kind) = true →
      ∃ known ∈ right.learn second o, known.covers (v.ahead.map Lexeme.kind) = true) :
    ∃ known ∈ (left.learn first o).flatMap (right.learn second),
      known.covers (v.ahead.map Lexeme.kind) = true := by
  obtain ⟨middle, among, covered⟩ := onLeft
  obtain ⟨known, member, covered⟩ := onRight middle covered
  exact ⟨known, List.mem_flatMap.mpr ⟨middle, among, member⟩, covered⟩

/-- What is learned from the answer to a question is true. -/
theorem exists_learn (look : Look) {o : Outlook} (covered : o.covers (v.ahead.map Lexeme.kind) = true) :
    ∃ known ∈ look.learn (look.holds v) o, known.covers (v.ahead.map Lexeme.kind) = true := by
  have keep : ∃ known ∈ [o], known.covers (v.ahead.map Lexeme.kind) = true :=
    ⟨o, List.mem_singleton.mpr rfl, covered⟩
  induction look generalizing o with
  | current kind =>
    have same : (current kind).holds v = (currentAny [kind]).holds v := by
      simp only [holds, List.contains_cons, List.contains_nil, Bool.or_false]
    have found := exists_currentAny [kind] covered
    rw [← same] at found
    cases answer : (current kind).holds v <;> rw [answer] at found <;> exact found
  | currentAny wanted => exact exists_currentAny wanted covered
  | next n kind => exact exists_next n kind covered
  | atEnd =>
    cases answer : atEnd.holds v with
    | true =>
      have none : v.ahead = [] := List.isEmpty_iff.mp answer
      rw [none] at covered
      rw [learn, if_pos (Outlook.eq_unknown covered)]
      exact keep
    | false => exact exists_more covered answer
  | implicitEnd =>
    cases answer : implicitEnd.holds v with
    | true => exact keep
    | false =>
      rw [holds, View.implicitEnd, Bool.or_eq_false_iff] at answer
      exact exists_more covered answer.1
  | shortDefinition =>
    cases answer : shortDefinition.holds v with
    | true =>
      rw [learn]
      split
      · exact ⟨_, List.mem_singleton.mpr rfl, namesThen_of_definesShort answer⟩
      · exact keep
    | false => exact keep
  | rangeDefinition =>
    cases answer : rangeDefinition.holds v with
    | true =>
      rw [learn]
      split
      · rename_i names
        rw [names] at covered
        exact ⟨_, List.mem_singleton.mpr rfl, namesThen_range covered answer⟩
      · exact keep
    | false => exact keep
  | not look ih =>
    have inner := ih covered keep
    rw [holds, learn, Bool.not_not]
    exact inner
  | and left right ihLeft ihRight =>
    have onLeft := ihLeft covered keep
    have onRight := fun (o : Outlook) covered => @ihRight o covered ⟨o, List.mem_singleton.mpr rfl, covered⟩
    cases first : left.holds v with
    | false =>
      rw [first] at onLeft
      obtain ⟨known, member, covered⟩ := onLeft
      rw [holds, first, Bool.false_and]
      exact ⟨known, List.mem_append_left _ member, covered⟩
    | true =>
      rw [first] at onLeft
      have both := exists_both onLeft onRight
      rw [holds, first, Bool.true_and]
      cases second : right.holds v with
      | true => rw [second] at both; exact both
      | false =>
        rw [second] at both
        obtain ⟨known, member, covered⟩ := both
        exact ⟨known, List.mem_append_right _ member, covered⟩
  | or left right ihLeft ihRight =>
    have onLeft := ihLeft covered keep
    have onRight := fun (o : Outlook) covered => @ihRight o covered ⟨o, List.mem_singleton.mpr rfl, covered⟩
    cases first : left.holds v with
    | true =>
      rw [first] at onLeft
      obtain ⟨known, member, covered⟩ := onLeft
      rw [holds, first, Bool.true_or]
      exact ⟨known, List.mem_append_left _ member, covered⟩
    | false =>
      rw [first] at onLeft
      have both := exists_both onLeft onRight
      rw [holds, first, Bool.false_or]
      cases second : right.holds v with
      | false => rw [second] at both; exact both
      | true =>
        rw [second] at both
        obtain ⟨known, member, covered⟩ := both
        exact ⟨known, List.mem_append_right _ member, covered⟩
  | newlineBefore n => cases (newlineBefore n).holds v <;> exact keep
  | inHeader => cases inHeader.holds v <;> exact keep
  | namedParameters => cases namedParameters.holds v <;> exact keep
  | bracketColon => cases bracketColon.holds v <;> exact keep

end Look

end GoNav.Grammar
