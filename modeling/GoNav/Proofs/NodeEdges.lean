import GoNav.Proofs.Grammar.Children
import GoNav.Proofs.Grammar.Building
import GoNav.Proofs.Placement

namespace GoNav

namespace Tree

/-- The first token, if there is any, is no blank and no comment. -/
def Begins (trees : List Tree) : Prop :=
  ∀ l ∈ (leavesOf trees).head?, l.1.isTrivia = false

/-- The last token, if there is any, is no blank and no comment. -/
def Ends (trees : List Tree) : Prop :=
  ∀ l ∈ (leavesOf trees).getLast?, l.1.isTrivia = false

variable {left right : List Tree}

theorem Begins.append (first : Begins left) (rest : leavesOf left = [] → Begins right) :
    Begins (left ++ right) := by
  intro l found
  rw [leavesOf_append, List.head?_append] at found
  cases before : (leavesOf left).head? with
  | some k =>
    rw [before] at found
    exact first l (before.trans found)
  | none =>
    rw [before, Option.none_or] at found
    exact rest (List.head?_eq_none_iff.mp before) l found

theorem Ends.append (last : Ends right) (first : leavesOf right = [] → Ends left) : Ends (left ++ right) := by
  intro l found
  rw [leavesOf_append, List.getLast?_append] at found
  cases behind : (leavesOf right).getLast? with
  | some k =>
    rw [behind] at found
    exact last l (behind.trans found)
  | none =>
    rw [behind, Option.none_or] at found
    exact first (List.getLast?_eq_none_iff.mp behind) l found

end Tree

namespace Grammar

/-! The first token of a node -/

theorem leavesOf_gather (kind : Option Kind) (trees : List Tree) :
    Tree.leavesOf (gather kind trees) = Tree.leavesOf trees := by
  cases kind <;> simp [gather, Tree.leavesOf, Tree.leaves]

/-- What is built begins with no blank or comment, and will not. -/
structure State.Fresh (s : State) : Prop where
  begins : Tree.Begins s.built
  pending : Tree.leavesOf s.built = [] → s.pending = []

namespace State.Fresh

variable {s t : State}

theorem inside (s : State) : s.inside.Fresh :=
  ⟨nofun, fun _ => rfl⟩

theorem flush (fresh : s.Fresh) : s.flush.Fresh := by
  refine ⟨fresh.begins.append fun none => ?_, fun _ => rfl⟩
  rw [fresh.pending none]
  nofun

theorem bump (fresh : s.Fresh) (tidy : s.Tidy) : s.bump.Fresh := by
  cases ahead : s.ahead with
  | nil =>
    have same : s.bump = s.flush := by simp [State.bump, State.flush, Cursor.advance, Cursor.upcoming, ahead]
    exact same ▸ fresh.flush
  | cons l rest =>
    have built : s.bump.built = s.flush.built ++ [State.leaf l.token] := by
      simp [State.bump, State.flush, Cursor.upcoming, ahead]
    refine ⟨?_, fun none => ?_⟩
    · rw [built]
      refine fresh.flush.begins.append fun _ k first => ?_
      cases first
      exact tidy.token l (ahead ▸ List.mem_cons_self ..)
    · rw [built, Tree.leavesOf_append] at none
      cases (List.append_eq_nil_iff.mp none).2

theorem resume (fresh : s.Fresh) (inner : t.Fresh) (kind : Option Kind) : (s.resume kind t).Fresh := by
  constructor
  · refine fresh.flush.begins.append fun _ => ?_
    rw [Tree.Begins, leavesOf_gather]
    exact inner.begins
  · intro none
    rw [State.resume, Tree.leavesOf_append, leavesOf_gather] at none
    exact inner.pending (List.append_eq_nil_iff.mp none).2

theorem wrap (fresh : s.Fresh) (kind : Kind) : State.Fresh { s with built := [.node kind s.built] } := by
  have leaves : Tree.leavesOf [.node kind s.built] = Tree.leavesOf s.built := leavesOf_gather (some kind) _
  refine ⟨?_, fun none => fresh.pending (leaves ▸ none)⟩
  rw [Tree.Begins, leaves]
  exact fresh.begins

end State.Fresh

/-- A node begins with no blank or comment. -/
def BeginsTight (_ : Kind) (children : List Tree) : Prop :=
  Tree.Begins children

theorem Does.fresh {n : Nat} {a : Action} {s t : State} {b : Bool} (done : Does n a s b t) (tidy : s.Tidy)
    {under : Bool} (wraps : a.wrapsMarked under = true) (begun : under = true → s.Fresh)
    (kept : Tree.ShapedAll BeginsTight s.built) :
    Tree.ShapedAll BeginsTight t.built ∧ (s.Fresh → t.Fresh) := by
  induction done generalizing under with
  | answer | ask => exact ⟨kept, id⟩
  | fail => exact ⟨kept, fun fresh => ⟨fresh.begins, fresh.pending⟩⟩
  | seq first _ ihFirst ihSecond =>
    obtain ⟨left, right⟩ := Bool.and_eq_true_iff.mp wraps
    obtain ⟨kept, fresh⟩ := ihFirst tidy left begun kept
    obtain ⟨kept, later⟩ := ihSecond (tidy_stable.does first tidy) right (fresh ∘ begun) kept
    exact ⟨kept, later ∘ fresh⟩
  | yes asked _ ihAsked ihWay =>
    simp only [Action.wrapsMarked, Bool.and_eq_true] at wraps
    obtain ⟨kept, fresh⟩ := ihAsked tidy wraps.1.1 begun kept
    obtain ⟨kept, later⟩ := ihWay (tidy_stable.does asked tidy) wraps.1.2 (fresh ∘ begun) kept
    exact ⟨kept, later ∘ fresh⟩
  | no asked _ ihAsked ihWay =>
    simp only [Action.wrapsMarked, Bool.and_eq_true] at wraps
    obtain ⟨kept, fresh⟩ := ihAsked tidy wraps.1.1 begun kept
    obtain ⟨kept, later⟩ := ihWay (tidy_stable.does asked tidy) wraps.2 (fresh ∘ begun) kept
    exact ⟨kept, later ∘ fresh⟩
  | bump => exact ⟨shapedAll_append kept (shapedAll_leaves _), fun fresh => fresh.bump tidy⟩
  | node kind _ ih =>
    obtain ⟨within, fresh⟩ := ih tidy.skip wraps (fun marked => absurd marked Bool.false_ne_true) trivial
    have inner := fresh (.inside _)
    exact ⟨shapedAll_append (shapedAll_flush kept) ⟨⟨inner.begins, within⟩, trivial⟩,
      fun outer => outer.resume inner _⟩
  | marked _ ih =>
    obtain ⟨within, fresh⟩ := ih tidy.skip wraps (fun _ => .inside _) trivial
    exact ⟨shapedAll_append (shapedAll_flush kept) within, fun outer => outer.resume (fresh (.inside _)) _⟩
  | wrap kind _ ih =>
    obtain ⟨marked, inner⟩ := Bool.and_eq_true_iff.mp wraps
    obtain ⟨within, fresh⟩ := ih tidy inner begun kept
    exact ⟨⟨⟨(fresh (begun marked)).begins, within⟩, trivial⟩, fun outer => (fresh outer).wrap kind⟩
  | header within _ ih =>
    obtain ⟨kept, fresh⟩ := ih (tidy.inHeader within) wraps
      (fun marked => ⟨(begun marked).begins, (begun marked).pending⟩) kept
    refine ⟨kept, fun outer => ?_⟩
    have inner := fresh ⟨outer.begins, outer.pending⟩
    exact ⟨inner.begins, inner.pending⟩
  | moves _ ih | stop _ ih => exact ih tidy wraps begun kept
  | again first _ ihFirst ihRest =>
    obtain ⟨kept, fresh⟩ := ihFirst tidy wraps begun kept
    obtain ⟨kept, later⟩ := ihRest (tidy_stable.does first tidy) wraps (fresh ∘ begun) kept
    exact ⟨kept, later ∘ fresh⟩
  | @call _ rule _ _ _ _ ih =>
    exact ih tidy rule.wrapsMarked_body (fun marked => absurd marked Bool.false_ne_true) kept

/-! The last token of a node -/

/-- Whether a rule takes a token wherever it reports no error. -/
def Rule.takes : Rule → Bool
  | .sourceFile | .topLevelDecl | .bracketRest | .fieldDecl | .interfaceElement | .statementList | .statement
  | .forHeader => false
  | _ => true

/-- A node holds a token, and ends with no blank or comment. -/
def EndsTight (_ : Kind) (children : List Tree) : Prop :=
  Tree.leavesOf children ≠ [] ∧ Tree.Ends children

/-- What is known of the end of a list of trees. -/
structure Ending where
  /-- There is a token. -/
  taken : Bool
  /-- The last token, if there is any, is no blank and no comment. -/
  clean : Bool
  deriving DecidableEq

namespace Ending

def nothing : Ending :=
  ⟨false, true⟩

/-- Of tokens that may be blanks and comments, or none. -/
def blanks : Ending :=
  ⟨false, false⟩

def append (d d' : Ending) : Ending :=
  ⟨d.taken || d'.taken, d'.clean && (d'.taken || d.clean)⟩

def join (d d' : Ending) : Ending :=
  ⟨d.taken && d'.taken, d.clean && d'.clean⟩

structure Fits (d : Ending) (trees : List Tree) : Prop where
  shaped : Tree.ShapedAll EndsTight trees
  taken : d.taken = true → Tree.leavesOf trees ≠ []
  clean : d.clean = true → Tree.Ends trees

variable {d d' : Ending} {left right trees : List Tree}

theorem fits_nothing : nothing.Fits [] :=
  ⟨trivial, nofun, nofun⟩

theorem fits_blanks (tokens : List Token) : blanks.Fits (tokens.map State.leaf) :=
  ⟨shapedAll_leaves _, nofun, nofun⟩

theorem Fits.append (before : d.Fits left) (behind : d'.Fits right) : (d.append d').Fits (left ++ right) := by
  refine ⟨shapedAll_append before.shaped behind.shaped, ?_, ?_⟩
  · intro either none
    rw [Tree.leavesOf_append, List.append_eq_nil_iff] at none
    rcases Bool.or_eq_true_iff.mp either with first | second
    · exact before.taken first none.1
    · exact behind.taken second none.2
  · intro both
    obtain ⟨last, first⟩ := Bool.and_eq_true_iff.mp both
    refine (behind.clean last).append fun none => ?_
    exact before.clean ((Bool.or_eq_true_iff.mp first).resolve_left fun taken => behind.taken taken none)

theorem fits_token {t : Token} (significant : t.kind.isTrivia = false) : Fits ⟨true, true⟩ [State.leaf t] := by
  refine ⟨shapedAll_leaves [t], nofun, fun _ l last => ?_⟩
  cases last
  exact significant

theorem Fits.node (fits : d.Fits trees) (taken : d.taken = true) (clean : d.clean = true) (kind : Kind) :
    d.Fits [.node kind trees] := by
  have leaves : Tree.leavesOf [.node kind trees] = Tree.leavesOf trees := leavesOf_gather (some kind) trees
  have ends : Tree.Ends [.node kind trees] := by
    rw [Tree.Ends, leaves]
    exact fits.clean clean
  exact ⟨⟨⟨⟨fits.taken taken, fits.clean clean⟩, fits.shaped⟩, trivial⟩, fun _ => leaves ▸ fits.taken taken,
    fun _ => ends⟩

theorem Fits.join (either : d.Fits trees ∨ d'.Fits trees) : (d.join d').Fits trees := by
  rcases either with fits | fits
  · exact ⟨fits.shaped, fun both => fits.taken (Bool.and_eq_true_iff.mp both).1,
      fun both => fits.clean (Bool.and_eq_true_iff.mp both).1⟩
  · exact ⟨fits.shaped, fun both => fits.taken (Bool.and_eq_true_iff.mp both).2,
      fun both => fits.clean (Bool.and_eq_true_iff.mp both).2⟩

end Ending

/-- The account of how nodes end where no error is reported, and of whether what is described is all that is
built. -/
def endings : Account (Bool × Ending) where
  lenient := false
  -- A token that is not known to be ahead may be missing, at the end of the file.
  bump first e := some (e.1, (e.2.append .blanks).append (if first.isSome then ⟨true, true⟩ else .blanks))
  opened _ _ := (true, .nothing)
  closed kind e inner :=
    if kind.isSome && !(inner.2.taken && inner.2.clean) then none else some (e.1, (e.2.append .blanks).append inner.2)
  wrapped _ e := if e.1 && e.2.taken && e.2.clean then some e else none
  moved e := e
  join e e' := if e.1 == e'.1 then some (e.1, e.2.join e'.2) else none
  start _ _ := (false, .nothing)
  ends rule _ e := (!rule.takes || e.2.taken) && e.2.clean
  called rule _ e := some (e.1, e.2.append ⟨rule.takes, true⟩)

theorem endings_sound : endings.Sound (Tells Ending.Fits) where
  bump {base e e' s first} tidy held known next := by
    obtain ⟨own, added, built, fits⟩ := held
    cases next
    refine ⟨own, added ++ s.pending.map State.leaf ++ (s.ahead.head?.map Lexeme.token).toList.map State.leaf,
      by simp [State.bump, Cursor.upcoming, built], (fits.append (Ending.fits_blanks _)).append ?_⟩
    split
    · rename_i some
      obtain ⟨place, first⟩ := Option.isSome_iff_exists.mp some
      obtain ⟨l, rest, ahead, _⟩ := known place first
      rw [ahead]
      exact Ending.fits_token (tidy.token l (ahead ▸ List.mem_cons_self ..))
    · exact Ending.fits_blanks _
  inside {base e s} kind tidy held := by
    obtain ⟨own, added, built, fits⟩ := held
    refine ⟨[], ⟨fun _ => rfl, [], rfl, Ending.fits_nothing⟩, fun {e' e'' t} _ inner closed => ?_⟩
    obtain ⟨_, within, builtWithin, fitsWithin⟩ := inner
    simp only [endings] at closed
    split at closed
    · cases closed
    · rename_i allowed
      cases closed
      refine ⟨own, added ++ s.pending.map State.leaf ++ gather kind t.built,
        by simp [State.resume, State.flush, built], (fits.append (Ending.fits_blanks _)).append ?_⟩
      rw [builtWithin, List.nil_append]
      cases kind with
      | none => exact fitsWithin
      | some kind =>
        simp only [Option.isSome_some, Bool.true_and, Bool.not_eq_true', Bool.not_eq_false,
          Bool.and_eq_true] at allowed
        exact fitsWithin.node allowed.1 allowed.2 kind
  wrap {base e e' s kind} held next := by
    obtain ⟨own, added, built, fits⟩ := held
    simp only [endings] at next
    split at next
    · rename_i whole
      cases next
      simp only [Bool.and_eq_true] at whole
      obtain rfl := own whole.1.1
      exact ⟨own, _, rfl, built ▸ fits.node whole.1.2 whole.2 kind⟩
    · cases next
  report _ _ held := held
  header _ held := held
  moved _ held _ := held
  join {base e e' e'' s} joined held := by
    simp only [endings] at joined
    split at joined
    · rename_i same
      cases joined
      rcases held with ⟨own, added, built, fits⟩ | ⟨own, added, built, fits⟩
      · exact ⟨own, added, built, .join (.inl fits)⟩
      · exact ⟨beq_iff_eq.mp same ▸ own, added, built, .join (.inr fits)⟩
    · cases joined
  called {base e e' s rule ready} held next := by
    obtain ⟨own, added, built, fits⟩ := held
    cases next
    refine ⟨s.built, ⟨fun claimed => absurd claimed Bool.false_ne_true, [], by simp, Ending.fits_nothing⟩,
      fun {last t} _ inner ends => ?_⟩
    obtain ⟨_, within, builtWithin, fitsWithin⟩ := inner
    refine ⟨own, added ++ within, by rw [builtWithin, built, List.append_assoc], fits.append ?_⟩
    obtain ⟨takes, clean⟩ := Bool.and_eq_true_iff.mp ends
    refine ⟨fitsWithin.shaped, fun sure => fitsWithin.taken ?_, fun _ => fitsWithin.clean clean⟩
    have sure : rule.takes = true := sure
    simpa [sure] using takes

theorem endings_passes (rule : Rule) : endings.passes rule = true :=
  Account.passes_all (by decide +kernel) (fun _ => ⟨rfl, rfl⟩) rule

end Grammar

namespace Parse

open Grammar

theorem beginsTight (text : String) : Tree.ShapedAll BeginsTight (ofText text).tree.children := by
  obtain ⟨depth, answer, done⟩ := does_finalState (Token.scan text)
  have wraps : (Action.call .sourceFile).wrapsMarked false = true := rfl
  exact shapedAll_flush (done.fresh (.ofTokens _) wraps nofun trivial).1

theorem endsTight {text : String} (ok : (ofText text).ok = true) :
    Tree.ShapedAll EndsTight (ofText text).tree.children := by
  obtain ⟨depth, answer, done⟩ := does_finalState (Token.scan text)
  have begun : Tells Ending.Fits [] (endings.start .sourceFile false) (.ofTokens (Token.scan text)) :=
    ⟨nofun, [], rfl, Ending.fits_nothing⟩
  have quiet : (finalState (Token.scan text)).errors = [] := List.isEmpty_iff.mp ok
  obtain ⟨_, _, _, added, built, fits⟩ :=
    done.exists_ends endings_sound endings_passes rfl (.ofTokens _) (.inr quiet) begun
  exact shapedAll_flush (built ▸ fits.shaped)

end Parse

/-- What is true of each node in the children of a tree is true of each node below its root. -/
theorem Node.shape_of_mem_root {shape : Kind → List Tree → Prop} {t : Tree} {n : Node}
    (shaped : Tree.ShapedAll shape t.children) (member : n ∈ (Node.root t).descendants)
    (inner : n ≠ Node.root t) : shape n.kind n.trees := by
  rcases mem_descendants.mp member with same | ⟨c, child, below⟩
  · exact absurd same inner
  · have tree := (mem_elementsIn (mem_children.mp child)).1
    exact shape_of_mem_descendants (Tree.shapedAll_iff.mp shaped _ tree) below

namespace Node

variable {n : Node}

theorem head?_leaves (begins : Tree.Begins n.trees) : ∀ l ∈ n.leaves.head?, l.kind.isTrivia = false := by
  intro l first
  refine begins l.written ?_
  rw [← leaves_written, List.head?_map, first]
  rfl

theorem getLast?_leaves (ends : Tree.Ends n.trees) : ∀ l ∈ n.leaves.getLast?, l.kind.isTrivia = false := by
  intro l last
  refine ends l.written ?_
  rw [← leaves_written, List.getLast?_map, last]
  rfl

end Node

namespace Parse

/-- No node but the root begins with a blank or comment. In a text without errors each holds a token, and neither
begins nor ends with a blank or comment. -/
theorem nodes_exclude_trivia {text : String} {n : Node} (member : n ∈ (Node.root (ofText text).tree).descendants)
    (inner : n ≠ Node.root (ofText text).tree) :
    (∀ l ∈ n.leaves.head?, l.kind.isTrivia = false) ∧
      ((ofText text).ok = true → n.start < n.stop ∧ ∃ first last, n.leaves.head? = some first ∧
        n.leaves.getLast? = some last ∧ first.kind.isTrivia = false ∧ last.kind.isTrivia = false) := by
  have begins := Node.head?_leaves (Node.shape_of_mem_root (beginsTight text) member inner)
  refine ⟨begins, fun ok => ?_⟩
  obtain ⟨some, ends⟩ := Node.shape_of_mem_root (endsTight ok) member inner
  rw [← Node.leaves_written, ne_eq, List.map_eq_nil_iff] at some
  obtain ⟨first, rest, leaves⟩ := List.exists_cons_of_ne_nil some
  obtain ⟨last, isLast⟩ := Option.isSome_iff_exists.mp (List.getLast?_isSome.mpr some)
  have isFirst : n.leaves.head? = .some first := leaves ▸ rfl
  refine ⟨?_, first, last, isFirst, isLast, begins first isFirst, Node.getLast?_leaves ends last isLast⟩
  have within : first ∈ n.leaves := leaves ▸ List.mem_cons_self ..
  obtain ⟨m, below, token⟩ := Node.mem_leaves.mp within
  have positive := SourceFile.start_lt_stop (f := .ofText ⟨""⟩ text)
    (Node.mem_leaves.mpr ⟨m, Node.descendants_trans member below, token⟩)
  have bounds := Node.bounds_of_mem_leaves within
  omega

/-- Comments on either side of a declaration and inside it. -/
def commented : String :=
  "package p // é\n\n/**/ var x /*y*/ = 1 // z\n"

theorem nodes_exclude_trivia_commented :
    (ofText commented).ok = true ∧ ∃ n ∈ (Node.root (ofText commented).tree).descendants,
      n.kind = .varDecl ∧ n ≠ Node.root (ofText commented).tree ∧ n.start < n.stop ∧
        ∃ first last, n.leaves.head? = some first ∧ n.leaves.getLast? = some last ∧
          first.kind.isTrivia = false ∧ last.kind.isTrivia = false := by
  have facts : ((ofText commented).ok &&
      (Node.root (ofText commented).tree).descendants.any (·.kind == .varDecl)) = true := by decide +kernel
  simp only [Bool.and_eq_true, List.any_eq_true, beq_iff_eq] at facts
  obtain ⟨ok, n, member, kind⟩ := facts
  have inner : n ≠ Node.root (ofText commented).tree := by
    rintro rfl
    cases kind
  exact ⟨ok, n, member, kind, inner, (nodes_exclude_trivia member inner).2 ok⟩

end Parse

end GoNav
