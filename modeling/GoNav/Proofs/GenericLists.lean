import GoNav.Proofs.Grammar.Following
import GoNav.Proofs.NodeEdges

namespace GoNav

/-- Kinds of tokens of which the square brackets are in pairs, one inside the other or apart. No other bracket is
looked at. -/
inductive Kind.Squared : List Kind → Prop
  | nil : Squared []
  | plain {kind : Kind} {rest : List Kind} (opens : kind ≠ .leftBracket) (closes : kind ≠ .rightBracket)
      (behind : Squared rest) : Squared (kind :: rest)
  | pair {inner rest : List Kind} (inside : Squared inner) (behind : Squared rest) :
      Squared (.leftBracket :: inner ++ .rightBracket :: rest)

namespace Kind.Squared

theorem append {left right : List Kind} (before : Squared left) (behind : Squared right) :
    Squared (left ++ right) := by
  induction before with
  | nil => exact behind
  | plain opens closes _ ih => exact .plain opens closes ih
  | pair inside _ _ ih =>
    rw [List.append_assoc, List.cons_append]
    exact .pair inside ih

theorem blanks {kinds : List Kind} (trivia : ∀ kind ∈ kinds, kind.isTrivia = true) : Squared kinds := by
  induction kinds with
  | nil => exact .nil
  | cons kind rest ih =>
    have own := trivia kind (List.mem_cons_self ..)
    refine .plain ?_ ?_ (ih fun other member => trivia other (List.mem_cons_of_mem kind member)) <;>
    · rintro rfl
      cases own

end Kind.Squared

namespace Grammar

/-! The run through a list -/

/-- Only tokens of these kinds are added from one state to the other. -/
def Skips (s t : State) (kinds : List Kind) : Prop :=
  ∃ tokens : List Token, t.built = s.built ++ tokens.map State.leaf ∧ tokens.map Token.kind = kinds

theorem Skips.refl (s : State) : Skips s s [] :=
  ⟨[], by simp, rfl⟩

theorem Skips.trans {s t u : State} {kinds more : List Kind} (first : Skips s t kinds) (second : Skips t u more) :
    Skips s u (kinds ++ more) := by
  obtain ⟨tokens, built, rfl⟩ := first
  obtain ⟨later, behind, rfl⟩ := second
  exact ⟨tokens ++ later, by rw [behind, built, List.map_append, List.append_assoc], List.map_append⟩

theorem exists_skips_bump {s : State} {l : Lexeme} {rest : List Lexeme} (tidy : s.Tidy) (ahead : s.ahead = l :: rest) :
    ∃ blanks, Skips s s.bump (blanks ++ [l.kind]) ∧ Kind.Squared blanks := by
  refine ⟨s.pending.map Token.kind, ⟨s.upcoming, rfl, ?_⟩, .blanks fun kind member => ?_⟩
  · simp [Cursor.upcoming, ahead, Lexeme.kind]
  · obtain ⟨t, pending, rfl⟩ := List.mem_map.mp member
    exact tidy.pending t pending

namespace Does

variable {n : Nat} {s t : State} {b : Bool}

/-- What each round of a loop but the last one keeps is true when the last one is begun. -/
theorem of_rounds {P Q : State → Prop} {inner : Action} (round : ∀ {s t}, P s → Does n inner s true t → P t)
    (last : ∀ {s t}, P s → Does n inner s false t → Q t) (done : Does n (.loop inner) s b t) (first : P s) :
    Q t := by
  generalize whole : Action.loop inner = a at done
  induction done with
  | again step _ _ ih =>
    cases whole
    exact ih round last (round first step) rfl
  | stop step _ =>
    cases whole
    exact last first step
  | _ => cases whole

theorem of_eat {kind : Kind} {yes no : Action} {l : Lexeme} {rest : List Lexeme}
    (done : Does n (.branch (.eat kind) yes no) s b t) (ahead : s.ahead = l :: rest) :
    l.kind = kind ∧ Does n yes s.bump b t ∨ l.kind ≠ kind ∧ Does n no s b t := by
  cases done with
  | yes eaten way =>
    rcases eaten.of_branch with ⟨current, taken⟩ | ⟨_, left⟩
    · cases taken
      exact .inl ⟨by simpa [Look.holds, Cursor.view, ahead] using current, way⟩
    · cases left
  | no eaten way =>
    rcases eaten.of_branch with ⟨_, taken⟩ | ⟨missing, left⟩
    · cases taken
    · cases left
      exact .inr ⟨by simpa [Look.holds, Cursor.view, ahead] using missing, way⟩

/-- One round through a list: it ends at a closing bracket and at the end of the file. -/
theorem of_bracketRound (done : Does n (.branch (.ask .atEnd) .no (.branch (.eat .rightBracket) .no
      (.branch (.eat .leftBracket) (.seq (.call .bracketRest) .yes) .bump))) s b t) :
    s.ahead = [] ∧ b = false ∧ t = s ∨ ∃ l rest, s.ahead = l :: rest ∧
      (l.kind = .rightBracket ∧ b = false ∧ t = s.bump ∨
        l.kind = .leftBracket ∧ b = true ∧ (∃ answer, Does n (.call .bracketRest) s.bump answer t) ∨
        l.kind ≠ .leftBracket ∧ l.kind ≠ .rightBracket ∧ b = true ∧ t = s.bump) := by
  rcases done.of_branch with ⟨atEnd, stopped⟩ | ⟨more, done⟩
  · cases stopped
    exact .inl ⟨by simpa [Look.holds, Cursor.view] using atEnd, rfl, rfl⟩
  · cases ahead : s.ahead with
    | nil => simp [Look.holds, Cursor.view, ahead] at more
    | cons l rest =>
      refine .inr ⟨l, rest, rfl, ?_⟩
      rcases done.of_eat ahead with ⟨closes, stopped⟩ | ⟨noClose, done⟩
      · cases stopped
        exact .inl ⟨closes, rfl, rfl⟩
      · rcases done.of_eat ahead with ⟨opens, nested⟩ | ⟨noOpen, taken⟩
        · cases nested with
          | seq inner answered =>
            cases answered
            exact .inr (.inl ⟨opens, rfl, _, inner⟩)
        · cases taken
          exact .inr (.inr ⟨noOpen, noClose, rfl, rfl⟩)

/-- A list is taken up to the bracket that closes it, or to the end of the file. -/
theorem exists_bracketRest (done : Does n (.call .bracketRest) s b t) (tidy : s.Tidy) :
    ∃ kinds, Skips s t kinds ∧
      (t.ahead = [] ∨ ∃ inner, kinds = inner ++ [.rightBracket] ∧ Kind.Squared inner) := by
  induction n generalizing s b t with
  | zero => cases done
  | succ n ih =>
    cases done with
    | call body =>
      -- A list inside the list is read one rule deeper. Between two rounds all brackets so far are in pairs.
      refine body.of_rounds (P := fun u => u.Tidy ∧ ∃ kinds, Skips s u kinds ∧ (u.ahead = [] ∨ Kind.Squared kinds))
        (Q := fun u => ∃ kinds, Skips s u kinds ∧
          (u.ahead = [] ∨ ∃ inner, kinds = inner ++ [.rightBracket] ∧ Kind.Squared inner))
        ?_ ?_ ⟨tidy, [], .refl s, .inr .nil⟩
      · rintro u v ⟨tidy, kinds, skips, squared⟩ round
        refine ⟨tidy_stable.does round tidy, ?_⟩
        rcases round.of_bracketRound with ⟨_, stopped, _⟩ | ⟨l, rest, ahead, ways⟩
        · cases stopped
        · replace squared := squared.resolve_left (by simp [ahead])
          obtain ⟨blanks, taken, plain⟩ := exists_skips_bump tidy ahead
          rcases ways with ⟨_, stopped, _⟩ | ⟨opens, _, answer, nested⟩ | ⟨noOpen, noClose, _, rfl⟩
          · cases stopped
          · obtain ⟨inside, within, closed⟩ := ih nested tidy.advance
            refine ⟨_, (skips.trans taken).trans within, closed.imp_right ?_⟩
            rintro ⟨inner, rfl, paired⟩
            have pair := (squared.append plain).append (.pair paired .nil)
            simpa [opens] using pair
          · exact ⟨_, skips.trans taken, .inr (squared.append (plain.append (.plain noOpen noClose .nil)))⟩
      · rintro u v ⟨tidy, kinds, skips, squared⟩ round
        rcases round.of_bracketRound with ⟨atEnd, _, rfl⟩ | ⟨l, rest, ahead, ways⟩
        · exact ⟨kinds, skips, .inl atEnd⟩
        · replace squared := squared.resolve_left (by simp [ahead])
          obtain ⟨blanks, taken, plain⟩ := exists_skips_bump tidy ahead
          rcases ways with ⟨closes, _, rfl⟩ | ⟨_, again, _⟩ | ⟨_, _, again, _⟩
          · refine ⟨_, skips.trans taken, .inr ⟨kinds ++ blanks, ?_, squared.append plain⟩⟩
            rw [closes, List.append_assoc]
          · cases again
          · cases again

/-- A list of type parameters is a node of tokens: one token, and what is up to the bracket that closes the list, or to
the end of the file. -/
theorem exists_typeParameters (done : Does n (.call .typeParameters) s b t) (tidy : s.Tidy) :
    ∃ u kinds, t = s.resume (some .typeParameters) u ∧ Reads s.inside u ∧ u.Tidy ∧ Skips s.inside u kinds ∧
      (u.ahead = [] ∨ ∃ first inner, kinds = first :: inner ++ [.rightBracket] ∧ Kind.Squared inner) := by
  cases done with
  | call body =>
    cases body with
    | @node _ _ _ u _ _ inner =>
      have reads := reads_stable.does inner
      have inside := tidy_invariant.inside tidy
      have after := tidy_stable.does inner inside
      cases inner with
      | seq first rest =>
        cases first
        obtain ⟨kinds, skips, ends⟩ := rest.exists_bracketRest inside.advance
        have bumped : Skips s.inside s.inside.bump (s.inside.upcoming.map Token.kind) := ⟨_, rfl, rfl⟩
        refine ⟨u, _, rfl, reads, after, bumped.trans skips, ?_⟩
        have suffix : u.ahead <:+ s.ahead := reads.ahead
        cases ahead : s.ahead with
        | nil => exact .inl (List.suffix_nil.mp (ahead ▸ suffix))
        | cons l later =>
          have first : s.inside.upcoming = [l.token] := by
            simp [Cursor.upcoming, State.inside, State.flush, Cursor.skip, ahead]
          refine ends.imp_right ?_
          rintro ⟨inner, rfl, squared⟩
          exact ⟨l.kind, inner, by rw [first]; rfl, squared⟩

end Does

/-- Type parameters end with the bracket that closes them, or nothing but blanks and comments stands behind them. -/
def Listed (kind : Kind) (children : List Tree) (behind : List (Kind × String)) : Prop :=
  kind = .typeParameters →
    (∃ first inner, (Tree.leavesOf children).map Prod.fst = first :: inner ++ [.rightBracket] ∧ Kind.Squared inner) ∨
      ∀ l ∈ behind, l.1.isTrivia = true

theorem kinds_of_skips {s t : State} {kinds : List Kind} (skips : Skips s.inside t kinds) :
    (Tree.leavesOf t.built).map Prod.fst = kinds := by
  obtain ⟨tokens, built, rfl⟩ := skips
  have built : t.built = tokens.map State.leaf := built
  rw [built, State.leavesOf_leaf, List.map_map]
  rfl

theorem Cursor.Tidy.unread {c : Cursor} (tidy : c.Tidy) (ahead : c.ahead = []) :
    ∀ l ∈ c.unread.map Token.written, l.1.isTrivia = true := by
  intro l member
  obtain ⟨t, pending, rfl⟩ := List.mem_map.mp member
  rw [Cursor.unread, ahead] at pending
  exact tidy.pending t pending

theorem Does.followed_typeParameters {n : Nat} {s t : State} {b : Bool}
    (done : Does n (.call .typeParameters) s b t) (tidy : s.Tidy) (kept : s.Followed Listed) :
    t.Followed Listed := by
  obtain ⟨u, kinds, rfl, reads, after, skips, ends⟩ := done.exists_typeParameters tidy
  refine kept.resume reads ?_ fun k same _ => ?_
  · obtain ⟨tokens, built, _⟩ := skips
    have built : u.built = tokens.map State.leaf := built
    rw [State.Followed, built]
    exact Tree.followedAll_leaves tokens
  · cases same
    rw [kinds_of_skips skips]
    exact ends.symm.imp_right after.unread

theorem listed_of_ne {kind : Kind} (other : (kind != .typeParameters) = true) (children : List Tree)
    (behind : List (Kind × String)) : Listed kind children behind :=
  fun same => absurd same (bne_iff_ne.mp other)

theorem Rule.buildsOnly_lists {rule : Rule} (other : rule ≠ .typeParameters) :
    rule.body.buildsOnly (· != .typeParameters) = true := by
  cases rule with
  | typeParameters => exact absurd rfl other
  | binary least => exact Rule.buildsOnly_binary (by decide) least
  | paramDecl named => cases named <;> rfl
  | _ => rfl

theorem Does.followed_call {n : Nat} {rule : Rule} {s t : State} {b : Bool} (done : Does n (.call rule) s b t)
    (tidy : s.Tidy) (kept : s.Followed Listed) : t.Followed Listed := by
  induction n generalizing rule s b t with
  | zero => cases done
  | succ n ih =>
    by_cases special : rule = .typeParameters
    · subst special
      exact done.followed_typeParameters tidy kept
    · cases done with
      | call body =>
        exact body.followed tidy_invariant (fun _ => listed_of_ne) ih (Rule.buildsOnly_lists special) tidy kept

end Grammar

theorem Parse.followed (text : String) : (ofText text).tree.Followed Grammar.Listed [] := by
  obtain ⟨depth, answer, done⟩ := does_finalState (Token.scan text)
  have followed := (done.followed_call (.ofTokens _) trivial).flush
  have read : (finalState (Token.scan text)).flush.unread = [] := by
    simp only [Grammar.State.flush, Grammar.Cursor.unread, Grammar.Cursor.skip, ahead_finalState]
  rw [Grammar.State.Followed, read] at followed
  exact ⟨Grammar.listed_of_ne rfl _ _, followed⟩

/-! What stands around a list -/

namespace Tree

/-- The first token that is no blank and no comment. -/
def firstToken (trees : List Tree) : Option (Kind × String) :=
  (leavesOf trees).find? (!·.1.isTrivia)

/-- Behind each list of type parameters stands a node that is no such list. -/
def Continued (trees : List Tree) : Prop :=
  ∀ left children right, trees = left ++ .node .typeParameters children :: right →
    ∃ kind inner, .node kind inner ∈ right ∧ kind ≠ .typeParameters

theorem firstToken_append (left right : List Tree) :
    firstToken (left ++ right) = (firstToken left).or (firstToken right) := by
  rw [firstToken, leavesOf_append, List.find?_append]
  rfl

theorem continued_nil : Continued [] := by
  intro left children right split
  simp at split

theorem continued_singleton {t : Tree} (other : ∀ children, .node .typeParameters children ≠ t) :
    Continued [t] := by
  intro left children right split
  have member : .node .typeParameters children ∈ [t] := split ▸ by simp
  exact absurd (List.mem_singleton.mp member) (other children)

/-- What stands behind the trees can be the other node. -/
theorem Continued.append {left right : List Tree} (behind : Continued right)
    (before : Continued left ∨ ∃ kind inner, .node kind inner ∈ right ∧ kind ≠ .typeParameters) :
    Continued (left ++ right) := by
  intro first children last split
  rcases List.append_eq_append_iff.mp split with ⟨more, _, inside⟩ | ⟨more, inside, later⟩
  · exact behind _ _ _ inside
  · cases more with
    | nil => exact behind [] children last later.symm
    | cons t rest =>
      cases later
      rcases before with own | ⟨kind, inner, member, other⟩
      · obtain ⟨kind, inner, member, other⟩ := own _ _ _ inside
        exact ⟨kind, inner, List.mem_append_left _ member, other⟩
      · exact ⟨kind, inner, List.mem_append_right _ member, other⟩

end Tree

namespace Grammar

/-- Type parameters begin with a square bracket. Wherever they stand, except in a named type, another node stands
behind them. -/
def Framed (kind : Kind) (children : List Tree) : Prop :=
  (kind = .typeParameters → ∃ text, Tree.firstToken children = some (.leftBracket, text)) ∧
    (kind ≠ .typeName → Tree.Continued children)

/-- What is known of a list of trees. -/
structure Margin where
  /-- There is no significant token. -/
  empty : Bool
  /-- The first significant token opens a square bracket. -/
  bracket : Bool
  continued : Bool
  /-- There is a node that is no list of type parameters. -/
  other : Bool
  deriving DecidableEq

namespace Margin

def nothing : Margin :=
  ⟨true, false, true, false⟩

def ofToken (first : Option Place) : Margin :=
  ⟨false, first == some (some [.leftBracket]), true, false⟩

def ofNode (kind : Kind) : Margin :=
  ⟨false, false, kind != .typeParameters, kind != .typeParameters⟩

def append (d d' : Margin) : Margin where
  empty := d.empty && d'.empty
  bracket := d.bracket || d.empty && d'.bracket
  continued := d'.continued && (d.continued || d'.other)
  other := d.other || d'.other

def join (d d' : Margin) : Margin :=
  ⟨d.empty && d'.empty, d.bracket && d'.bracket, d.continued && d'.continued, d.other && d'.other⟩

def mayBeIn (d : Margin) (kind : Kind) : Bool :=
  (kind != .typeParameters || d.bracket) && (kind == .typeName || d.continued)

structure Fits (d : Margin) (trees : List Tree) : Prop where
  shaped : Tree.ShapedAll Framed trees
  empty : d.empty = true → Tree.firstToken trees = none
  bracket : d.bracket = true → ∃ text, Tree.firstToken trees = some (.leftBracket, text)
  continued : d.continued = true → Tree.Continued trees
  other : d.other = true → ∃ kind inner, .node kind inner ∈ trees ∧ kind ≠ .typeParameters

variable {d d' : Margin} {left right trees : List Tree}

theorem append_nothing (d : Margin) : d.append nothing = d := by
  simp [append, nothing]

theorem fits_nothing : nothing.Fits [] :=
  ⟨trivial, fun _ => rfl, nofun, fun _ => Tree.continued_nil, nofun⟩

theorem fits_blank {t : Token} (trivia : t.kind.isTrivia = true) : nothing.Fits [State.leaf t] :=
  ⟨shapedAll_leaves [t], fun _ => by simp [Tree.firstToken, Tree.leavesOf, Tree.leaves, State.leaf, trivia], nofun,
    fun _ => Tree.continued_singleton nofun, nofun⟩

theorem fits_token {t : Token} {first : Option Place} (known : ∀ place ∈ first, place.admits t.kind = true) :
    (ofToken first).Fits [State.leaf t] := by
  refine ⟨shapedAll_leaves [t], nofun, fun opens => ?_, fun _ => Tree.continued_singleton nofun, nofun⟩
  have kind : t.kind = .leftBracket := by
    simpa [Place.admits] using known _ (beq_iff_eq.mp opens)
  have significant : Kind.leftBracket.isTrivia = false := rfl
  exact ⟨t.text, by simp [Tree.firstToken, Tree.leavesOf, Tree.leaves, State.leaf, kind, significant]⟩

theorem Fits.append (before : d.Fits left) (behind : d'.Fits right) : (d.append d').Fits (left ++ right) := by
  refine ⟨shapedAll_append before.shaped behind.shaped, fun both => ?_, fun either => ?_, fun both => ?_,
    fun either => ?_⟩
  · obtain ⟨first, second⟩ := Bool.and_eq_true_iff.mp both
    rw [Tree.firstToken_append, before.empty first, behind.empty second]
    rfl
  · rw [Tree.firstToken_append]
    rcases Bool.or_eq_true_iff.mp either with own | later
    · obtain ⟨text, first⟩ := before.bracket own
      exact ⟨text, by rw [first, Option.some_or]⟩
    · obtain ⟨none, second⟩ := Bool.and_eq_true_iff.mp later
      rw [before.empty none, Option.none_or]
      exact behind.bracket second
  · obtain ⟨second, first⟩ := Bool.and_eq_true_iff.mp both
    exact (behind.continued second).append ((Bool.or_eq_true_iff.mp first).imp before.continued behind.other)
  · rcases Bool.or_eq_true_iff.mp either with own | later
    · obtain ⟨kind, inner, member, other⟩ := before.other own
      exact ⟨kind, inner, List.mem_append_left _ member, other⟩
    · obtain ⟨kind, inner, member, other⟩ := behind.other later
      exact ⟨kind, inner, List.mem_append_right _ member, other⟩

theorem Fits.framed {kind : Kind} (fits : d.Fits trees) (may : d.mayBeIn kind = true) : Framed kind trees := by
  simp only [mayBeIn, Bool.and_eq_true, Bool.or_eq_true, bne_iff_ne, beq_iff_eq] at may
  exact ⟨fun list => fits.bracket (may.1.resolve_left (not_not_intro list)),
    fun other => fits.continued (may.2.resolve_left other)⟩

theorem Fits.node {kind : Kind} (fits : d.Fits trees) (may : d.mayBeIn kind = true) :
    (ofNode kind).Fits [.node kind trees] := by
  refine ⟨⟨⟨fits.framed may, fits.shaped⟩, trivial⟩, nofun, nofun, fun other => ?_, fun other => ?_⟩
  · refine Tree.continued_singleton fun children same => bne_iff_ne.mp other ?_
    cases same
    rfl
  · exact ⟨kind, trees, List.mem_singleton_self _, bne_iff_ne.mp other⟩

theorem Fits.weaken {weaker : Margin} (fits : d.Fits trees) (empty : weaker.empty = true → d.empty = true)
    (bracket : weaker.bracket = true → d.bracket = true) (continued : weaker.continued = true → d.continued = true)
    (other : weaker.other = true → d.other = true) : weaker.Fits trees :=
  ⟨fits.shaped, fits.empty ∘ empty, fits.bracket ∘ bracket, fits.continued ∘ continued, fits.other ∘ other⟩

theorem Fits.join (either : d.Fits trees ∨ d'.Fits trees) : (d.join d').Fits trees := by
  rcases either with fits | fits
  · exact fits.weaken (And.left ∘ Bool.and_eq_true_iff.mp) (And.left ∘ Bool.and_eq_true_iff.mp)
      (And.left ∘ Bool.and_eq_true_iff.mp) (And.left ∘ Bool.and_eq_true_iff.mp)
  · exact fits.weaken (And.right ∘ Bool.and_eq_true_iff.mp) (And.right ∘ Bool.and_eq_true_iff.mp)
      (And.right ∘ Bool.and_eq_true_iff.mp) (And.right ∘ Bool.and_eq_true_iff.mp)

end Margin

/-- The account of what stands around lists of type parameters. -/
def margins : Sketch Margin where
  lenient := false
  nothing _ := .nothing
  bump first d := some (d.append (.ofToken first))
  node kind d := if d.mayBeIn kind then some (.ofNode kind) else none
  append d d' := some (d.append d')
  join d d' := some (d.join d')
  start _ := .nothing
  adds
    | .typeParameters => .ofNode .typeParameters
    | .typ | .typeName | .structType | .interfaceType | .signature | .block => ⟨false, false, true, true⟩
    | _ => ⟨false, false, true, false⟩

theorem margins_sound : margins.Sound Margin.Fits where
  nothing _ := Margin.fits_nothing
  start _ := Margin.fits_nothing
  blank {d trees t} fits trivia := d.append_nothing ▸ fits.append (Margin.fits_blank trivia)
  bump {d d' trees t first} fits known next := by
    cases next
    exact fits.append (Margin.fits_token known)
  atEnd {d d' trees} fits next := by
    cases next
    have none : (Margin.ofToken none).Fits [] := Margin.fits_nothing.weaken nofun nofun (fun _ => rfl) nofun
    have whole := fits.append none
    rwa [List.append_nil] at whole
  node {d d' trees kind} fits next := by
    simp only [margins] at next
    split at next
    · rename_i may
      cases next
      exact fits.node may
    · cases next
  append {d d' d'' left right} before behind next := by
    cases next
    exact before.append behind
  join {d d' d'' trees} joined either := by
    cases joined
    exact .join either

theorem margins_passes (rule : Rule) : margins.account.passes rule = true :=
  Account.passes_all (by decide +kernel) (fun _ => ⟨rfl, rfl⟩) rule

end Grammar

theorem Parse.framed_of_ok {text : String} (ok : (ofText text).ok = true) :
    (ofText text).tree.Shaped Grammar.Framed := by
  have fits := Grammar.margins_sound.ofTokens Grammar.margins_passes (.inr (List.isEmpty_iff.mp ok))
  exact ⟨fits.framed rfl, fits.shaped⟩

namespace Node

variable {n : Node}

theorem map_kind_leaves (n : Node) : n.leaves.map Leaf.kind = (Tree.leavesOf n.trees).map Prod.fst := by
  rw [← leaves_written, List.map_map]
  rfl

/-- A node that begins with no blank or comment begins with its first significant token. -/
theorem exists_head {l : Kind × String} (begins : Tree.Begins n.trees) (first : Tree.firstToken n.trees = some l) :
    ∃ head rest, n.leaves = head :: rest ∧ head.kind = l.1 := by
  have tight := head?_leaves begins
  rw [Tree.firstToken, ← leaves_written] at first
  cases leaves : n.leaves with
  | nil => simp [leaves] at first
  | cons head rest =>
    have significant := tight head (by rw [leaves]; rfl)
    rw [leaves, List.map_cons, List.find?_cons_of_pos (by simp [Leaf.written, significant])] at first
    exact ⟨head, rest, rfl, congrArg Prod.fst (Option.some.inj first)⟩

theorem exists_parent {root : Node} (member : n ∈ root.descendants) (inner : n ≠ root) :
    ∃ p ∈ root.descendants, n ∈ p.children := by
  cases mem_descendants_iff_below.mp member with
  | root => exact absurd rfl inner
  | child above child => exact ⟨_, mem_descendants_iff_below.mpr above, child⟩

theorem leaves_subset {root : Node} (member : n ∈ root.descendants) : n.leaves ⊆ root.leaves := by
  intro l among
  obtain ⟨m, below, token⟩ := mem_leaves.mp among
  exact mem_leaves.mpr ⟨m, descendants_trans member below, token⟩

end Node

namespace Parse

open Grammar

variable {text : String} {n : Node}

/-- Outside of a named type, a significant token stands behind a list of type parameters. -/
theorem exists_token_behind {p : Node} (ok : (ofText text).ok = true)
    (around : p ∈ (Node.root (ofText text).tree).descendants) (child : n ∈ p.children)
    (list : n.kind = .typeParameters) (other : p.kind ≠ .typeName) :
    ∃ l ∈ (Node.root (ofText text).tree).leaves, l.kind.isTrivia = false ∧ n.stop ≤ l.start := by
  obtain ⟨before, behind, split⟩ := List.append_of_mem (Node.mem_children.mp child)
  have trees : p.trees = before.map Element.tree ++ .node .typeParameters n.trees :: behind.map Element.tree := by
    rw [← p.map_tree_elements, split, List.map_append, List.map_cons, ← list]
    rfl
  obtain ⟨kind, inner, among, _⟩ := (Node.shape_of_mem_descendants (framed_of_ok ok) around).2 other _ _ _ trees
  obtain ⟨e, later, tree⟩ := List.mem_map.mp among
  cases e with
  | leaf l => cases tree
  | node m =>
    have sibling : m ∈ p.children := Node.mem_children.mpr (by simp [split, later])
    have below := Node.child_mem_descendants around sibling
    have order : n.stop ≤ m.start := by
      have pairwise := Node.pairwise_elementsIn p 0 p.start p.trees
      rw [← Node.elements, split, List.pairwise_append, List.pairwise_cons] at pairwise
      exact pairwise.2.1.1 _ later
    have apart : m ≠ Node.root (ofText text).tree := by
      rintro rfl
      cases Node.parent_of_mem_children sibling
    obtain ⟨some, ends⟩ := Node.shape_of_mem_root (endsTight ok) below apart
    rw [← Node.leaves_written, ne_eq, List.map_eq_nil_iff] at some
    obtain ⟨l, last⟩ := Option.isSome_iff_exists.mp (List.getLast?_isSome.mpr some)
    have within := List.mem_of_getLast? last
    exact ⟨l, Node.leaves_subset below within, Node.getLast?_leaves ends l last,
      Nat.le_trans order (Node.bounds_of_mem_leaves within).1⟩

/-- What stands behind a node by its place stands behind it among the tokens. -/
theorem mem_right_of_stop_le {left right : List Leaf} {head l : Leaf}
    (split : (Node.root (ofText text).tree).leaves = left ++ n.leaves ++ right) (first : head ∈ n.leaves)
    (member : l ∈ (Node.root (ofText text).tree).leaves) (behind : n.stop ≤ l.start) : l ∈ right := by
  have whole {k : Leaf} (inside : k ∈ n.leaves) : k.start < n.stop := by
    have among : k ∈ (Node.root (ofText text).tree).leaves := by simp [split, inside]
    have positive := SourceFile.start_lt_stop (f := .ofText ⟨""⟩ text) among
    have bounds := Node.bounds_of_mem_leaves inside
    omega
  have order := (Node.root (ofText text).tree).pairwise_leaves
  rw [split, List.pairwise_append, List.pairwise_append] at order
  rw [split, List.mem_append, List.mem_append] at member
  rcases member with (before | inside) | after
  -- No token is empty, so what comes before the first token of the node starts before that.
  · have ends : l.start + l.text.utf8ByteSize ≤ head.start := order.1.2.2 l before head first
    have := whole first
    omega
  · have := whole inside
    omega
  · exact after

/-- In a text without errors each list of type parameters begins with a square bracket. Unless it stands in a named
type with nothing but blanks and comments behind it, it ends with the bracket that closes the first one, where only
square brackets count: what else is in the list is taken as it is. -/
theorem lists_closed_of_ok (ok : (ofText text).ok = true)
    (member : n ∈ (Node.root (ofText text).tree).descendants) (list : n.kind = .typeParameters) :
    ∃ rest, n.leaves.map Leaf.kind = .leftBracket :: rest ∧
      ((∀ p ∈ n.parent, p.kind ≠ .typeName) ∨
          (∃ l ∈ (Node.root (ofText text).tree).leaves, l.kind.isTrivia = false ∧ n.stop ≤ l.start) →
        ∃ inner, rest = inner ++ [.rightBracket] ∧ Kind.Squared inner) := by
  have apart : n ≠ Node.root (ofText text).tree := by
    rintro rfl
    cases list
  obtain ⟨_, first⟩ := (Node.shape_of_mem_descendants (framed_of_ok ok) member).1 list
  obtain ⟨head, rest, leaves, bracket⟩ :=
    Node.exists_head (Node.shape_of_mem_root (beginsTight text) member apart) first
  refine ⟨rest.map Leaf.kind, by rw [leaves, List.map_cons, bracket], fun either => ?_⟩
  have token : ∃ l ∈ (Node.root (ofText text).tree).leaves, l.kind.isTrivia = false ∧ n.stop ≤ l.start := by
    rcases either with other | there
    · obtain ⟨p, around, child⟩ := Node.exists_parent member apart
      exact exists_token_behind ok around child list (other p (Node.parent_of_mem_children child))
    · exact there
  obtain ⟨l, among, significant, behind⟩ := token
  obtain ⟨left, right, split, listed⟩ := Node.exists_followed (followed text) member
  rcases listed list with ⟨opener, inner, kinds, squared⟩ | blank
  · rw [← Node.map_kind_leaves, leaves] at kinds
    exact ⟨inner, (List.cons.inj kinds).2, squared⟩
  · have later := mem_right_of_stop_le split (leaves ▸ List.mem_cons_self ..) among behind
    have trivia := blank l.written (List.mem_append_left _ (List.mem_map_of_mem later))
    exact absurd trivia (Bool.eq_false_iff.mp significant)

/-- A function and a variable with lists that have lists in them. -/
def nestedLists : String :=
  "package p\nfunc f[K any, V map[K]int](v V)\nvar x T[[]K /*]*/]\nvar y int\n"

theorem lists_closed_of_ok_nested :
    (ofText nestedLists).ok = true ∧
      ((Node.root (ofText nestedLists).tree).descendants.filter (·.kind == .typeParameters)).length = 2 ∧
      ∀ n ∈ (Node.root (ofText nestedLists).tree).descendants, n.kind = .typeParameters →
        ∃ inner, n.leaves.map Leaf.kind = .leftBracket :: (inner ++ [.rightBracket]) ∧ Kind.Squared inner := by
  have facts : ((ofText nestedLists).ok &&
      ((Node.root (ofText nestedLists).tree).descendants.filter (·.kind == .typeParameters)).length == 2 &&
      (Node.root (ofText nestedLists).tree).descendants.all fun n => n.kind != .typeParameters ||
        (Node.root (ofText nestedLists).tree).leaves.any fun l =>
          !l.kind.isTrivia && decide (n.stop ≤ l.start)) = true := by decide +kernel
  simp only [Bool.and_eq_true, beq_iff_eq, List.all_eq_true, Bool.or_eq_true, bne_iff_ne, List.any_eq_true,
    Bool.not_eq_true', decide_eq_true_eq] at facts
  obtain ⟨⟨ok, two⟩, behind⟩ := facts
  refine ⟨ok, two, fun n member list => ?_⟩
  obtain ⟨rest, kinds, closed⟩ := lists_closed_of_ok ok member list
  obtain ⟨inner, rfl, squared⟩ := closed (.inr ((behind n member).resolve_left (not_not_intro list)))
  exact ⟨inner, kinds, squared⟩

/-- A list with a parenthesis that is not closed and a token that no pattern covers, and a list that the text ends
in. -/
def looseLists : String :=
  "package p\nvar x T[(@]\nvar y T["

/-- Neither what is in a list nor where the text ends is an error. -/
theorem lists_unchecked :
    (ofText looseLists).ok = true ∧
      (∃ n ∈ (Node.root (ofText looseLists).tree).descendants, n.kind = .typeParameters ∧
        n.leaves.map Leaf.kind = [.leftBracket, .leftParen, .error, .rightBracket]) ∧
      ∃ n ∈ (Node.root (ofText looseLists).tree).descendants, n.kind = .typeParameters ∧
        n.leaves.map Leaf.kind = [.leftBracket] := by
  have facts : ((ofText looseLists).ok &&
      (Node.root (ofText looseLists).tree).descendants.any (fun n => n.kind == .typeParameters &&
        n.leaves.map Leaf.kind == [.leftBracket, .leftParen, .error, .rightBracket]) &&
      (Node.root (ofText looseLists).tree).descendants.any (fun n => n.kind == .typeParameters &&
        n.leaves.map Leaf.kind == [.leftBracket])) = true := by decide +kernel
  simpa only [Bool.and_eq_true, List.any_eq_true, beq_iff_eq, and_assoc] using facts

end Parse

end GoNav
