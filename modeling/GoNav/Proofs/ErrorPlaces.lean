import GoNav.Proofs.Grammar.Depth
import GoNav.Proofs.Offsets

namespace GoNav

/-- An error that points at a significant token of a text, or at its end. -/
def SyntaxError.PointsInto (e : SyntaxError) (text : String) : Prop :=
  (∃ t ∈ Token.scan text, t.kind.isTrivia = false ∧ e.start = t.start ∧ e.stop = t.stop) ∨
    e.start = text.utf8ByteSize ∧ e.stop = text.utf8ByteSize

namespace Grammar

/-! The order of the errors -/

namespace Cursor

/-- The byte offset of the next significant token, or of the end of the file. -/
def place (c : Cursor) : Nat :=
  (c.ahead.head?.map (·.token.start)).getD c.stop

/-- A parse of a text stands before some of its tokens, and has objected to them in their order. -/
structure Located (text : String) (c : Cursor) : Prop where
  tidy : c.Tidy
  unread : c.unread <:+ Token.scan text
  stop : c.stop = text.utf8ByteSize
  sorted : c.errors.Pairwise fun a b => a.start ≤ b.start
  passed : ∀ e ∈ c.errors, e.start ≤ c.place
  points : ∀ e ∈ c.errors, e.PointsInto text

variable {text : String} {c : Cursor}

theorem unread_skip_suffix (c : Cursor) : c.skip.unread <:+ c.unread :=
  c.pending_append_unread_skip ▸ List.suffix_append ..

theorem unread_skip {l : Lexeme} {rest : List Lexeme} (ahead : c.ahead = l :: rest) :
    c.skip.unread = l.token :: (rest.flatMap Lexeme.tokens ++ c.trailing) := by
  simp [unread, skip, ahead]

theorem unread_advance_suffix (c : Cursor) : c.advance.unread <:+ c.skip.unread := by
  have taken := c.upcoming_append_unread_advance
  rw [← c.pending_append_unread_skip, upcoming, List.append_assoc, List.append_cancel_left_eq] at taken
  exact taken ▸ List.suffix_append ..

/-- The text from the next significant token on is not yet read. -/
theorem place_add (unread : c.unread <:+ Token.scan text) (stop : c.stop = text.utf8ByteSize) :
    c.place + bytesIn (c.skip.unread.map Token.written) = text.utf8ByteSize := by
  cases ahead : c.ahead with
  | nil => simpa [place, Cursor.unread, skip, ahead, bytesIn] using stop
  | cons l rest =>
    obtain ⟨before, split⟩ := c.unread_skip_suffix.trans unread
    rw [unread_skip ahead] at split ⊢
    simpa [place, ahead] using Token.start_add_bytesIn split.symm

namespace Located

theorem start (text : String) : (Cursor.ofTokens (Token.scan text)).Located text where
  tidy := .ofTokens _
  unread := ⟨[], unread_ofTokens (Token.scan text)⟩
  stop := by
    simp only [Cursor.ofTokens]
    cases last : (Token.scan text).getLast? with
    | none =>
      rw [← Token.bytesIn_scan, List.getLast?_eq_none_iff.mp last]
      rfl
    | some t =>
      obtain ⟨before, split⟩ := List.getLast?_eq_some_iff.mp last
      exact Token.start_add_bytesIn split
  sorted := .nil
  passed _ member := absurd member List.not_mem_nil
  points _ member := absurd member List.not_mem_nil

theorem skip (located : c.Located text) : c.skip.Located text :=
  { located with tidy := located.tidy.skip, unread := c.unread_skip_suffix.trans located.unread }

theorem inHeader (located : c.Located text) (within : Bool) : Located text { c with inHeader := within } :=
  { located with tidy := located.tidy.inHeader within }

theorem advance (located : c.Located text) : c.advance.Located text := by
  have unread := c.unread_advance_suffix.trans (c.unread_skip_suffix.trans located.unread)
  have stop : c.advance.stop = text.utf8ByteSize := by
    rw [← located.stop, Cursor.advance]
    split <;> rfl
  have errors : c.advance.errors = c.errors := by
    rw [Cursor.advance]
    split <;> rfl
  have onward : c.place ≤ c.advance.place := by
    have before := place_add located.unread located.stop
    have behind := place_add unread stop
    have fewer := bytesIn_le_of_suffix
      ((c.advance.unread_skip_suffix.trans c.unread_advance_suffix).map Token.written)
    omega
  refine ⟨located.tidy.advance, unread, stop, errors ▸ located.sorted, ?_, errors ▸ located.points⟩
  intro e member
  rw [errors] at member
  exact Nat.le_trans (located.passed e member) onward

/-- An error is reported at the next significant token, or at the end of the text. -/
theorem exists_report (located : c.Located text) (cause : SyntaxError.Cause) :
    ∃ e, (c.report cause).errors = c.errors ++ [e] ∧ e.start = c.place ∧ e.PointsInto text := by
  refine ⟨_, rfl, ?_, ?_⟩
  · cases ahead : c.ahead <;> simp [place, ahead]
  · cases ahead : c.ahead with
    | nil => exact .inr ⟨by simpa using located.stop, by simpa using located.stop⟩
    | cons l rest =>
      have suffix := c.unread_skip_suffix.trans located.unread
      rw [unread_skip ahead] at suffix
      have significant := located.tidy.token l (ahead ▸ List.mem_cons_self ..)
      exact .inl ⟨l.token, suffix.subset (List.mem_cons_self ..), significant, rfl, rfl⟩

theorem report (located : c.Located text) (cause : SyntaxError.Cause) : (c.report cause).Located text := by
  obtain ⟨e, errors, start, points⟩ := located.exists_report cause
  refine ⟨⟨located.tidy.pending, located.tidy.lead, located.tidy.token, located.tidy.trailing⟩,
    located.unread, located.stop, ?_, ?_, ?_⟩ <;> rw [errors]
  · refine List.pairwise_append.mpr ⟨located.sorted, List.pairwise_singleton .., ?_⟩
    intro earlier member last isLast
    rw [List.mem_singleton.mp isLast, start]
    exact located.passed earlier member
  · intro other member
    rcases List.mem_append.mp member with earlier | isLast
    · exact located.passed other earlier
    · exact List.mem_singleton.mp isLast ▸ Nat.le_of_eq start
  · intro other member
    rcases List.mem_append.mp member with earlier | isLast
    · exact located.points other earlier
    · exact List.mem_singleton.mp isLast ▸ points

end Located

end Cursor

theorem located_stable (text : String) : Stable fun s t => s.Located text → t.Located text where
  refl _ located := located
  trans first second located := second (first located)
  bump _ located := located.advance
  report _ cause located := located.report cause
  node _ inner located := inner located.skip
  marked inner located := inner located.skip
  wrap _ inner located := inner located
  header _ inner located := (inner (located.inHeader _)).inHeader _

end Grammar

/-! Trees with the places of their nodes -/

mutual

/-- Each node of a tree that starts at the given offset is of a kind that may start where it does. -/
def Tree.Placed (may : Nat → Kind → Prop) (start : Nat) : Tree → Prop
  | .token .. => True
  | .node kind children => may start kind ∧ Tree.PlacedAll may start children

def Tree.PlacedAll (may : Nat → Kind → Prop) (start : Nat) : List Tree → Prop
  | [] => True
  | t :: rest => t.Placed may start ∧ Tree.PlacedAll may (start + t.bytes) rest

end

section

variable {may : Nat → Kind → Prop} {start : Nat}

theorem Tree.placedAll_append {left right : List Tree} : Tree.PlacedAll may start (left ++ right) ↔
    Tree.PlacedAll may start left ∧ Tree.PlacedAll may (start + Tree.bytesOf left) right := by
  induction left generalizing start with
  | nil => simp [PlacedAll, bytesOf]
  | cons t rest ih => simp only [List.cons_append, PlacedAll, ih, bytesOf, and_assoc, Nat.add_assoc]

theorem Tree.placedAll_leaves (tokens : List Token) :
    Tree.PlacedAll may start (tokens.map Grammar.State.leaf) := by
  induction tokens generalizing start with
  | nil => trivial
  | cons t rest ih => exact ⟨trivial, ih⟩

theorem Node.placed_of_mem_elementsIn {parent c : Node} {index : Nat} {trees : List Tree}
    (placed : Tree.PlacedAll may start trees) (member : .node c ∈ elementsIn parent index start trees) :
    (Tree.node c.kind c.trees).Placed may c.start := by
  induction trees generalizing index start with
  | nil => cases member
  | cons t rest ih =>
    rcases List.mem_cons.mp member with first | later
    · cases t with
      | token kind text => cases first
      | node kind children =>
        cases first
        exact placed.1
    · exact ih placed.2 later

/-- The places of the nodes below a node are those of the trees in it. -/
theorem Node.may_of_mem_descendants {n m : Node} (placed : (Tree.node n.kind n.trees).Placed may n.start)
    (member : m ∈ n.descendants) : may m.start m.kind := by
  induction n using children_induction with
  | step n ih =>
    rcases mem_descendants.mp member with rfl | ⟨c, child, below⟩
    · exact placed.1
    · exact ih c child (placed_of_mem_elementsIn placed.2 (mem_children.mp child)) below

end

namespace Grammar

/-! Error nodes -/

/-- Whether an error is known to be reported at the next significant token when an action is done, by whether one
was before. There is no answer where the action may begin an error node without one. -/
def Action.reporting : Action → Bool → Option Bool
  | .answer _, reported | .ask _, reported => some reported
  | .seq first second, reported => (first.reporting reported).bind second.reporting
  | .branch question yes no, reported =>
    (question.reporting reported).bind fun asked =>
      (yes.reporting asked).bind fun left => (no.reporting asked).map (left && ·)
  | .bump, _ | .call _, _ => some false
  | .node kind inner, reported => if kind == .error && !reported then none else inner.reporting reported
  | .wrap kind inner, reported => if kind == .error then none else inner.reporting reported
  | .marked inner, reported | .header _ inner, reported | .moves inner, reported => inner.reporting reported
  | .fail _, _ => some true
  | .loop inner, _ => (inner.reporting false).map fun _ => false

theorem Rule.reporting_body (rule : Rule) : (rule.body.reporting false).isSome = true := by
  have listed : ∀ rule ∈ Rule.all, (rule.body.reporting false).isSome = true := by decide +kernel
  rcases rule.mem_all with member | ⟨n, rfl⟩
  · exact listed rule member
  · rw [Rule.body_binary]
    exact listed _ (by decide)

/-- An error node starts where an error does. -/
def ErrorAt (errors : List SyntaxError) (start : Nat) (kind : Kind) : Prop :=
  kind = .error → ∃ e ∈ errors, e.start = start

/-- The inside of a node starts at the next significant token. -/
theorem start_inside {text : String} {s : State} {start : Nat} (located : s.Located text)
    (whole : start + bytesIn s.contents = text.utf8ByteSize) : start + Tree.bytesOf s.flush.built = s.place := by
  have rest := Cursor.place_add located.unread located.stop
  rw [← s.contents_flush, State.contents, bytesIn_append, ← Tree.bytesOf_eq] at whole
  have skipped : s.flush.unread = s.skip.unread := rfl
  rw [skipped] at whole
  omega

theorem placed_resume {errors : List SyntaxError} {text : String} {s t : State} {start : Nat} {kind : Option Kind}
    (located : s.Located text) (whole : start + bytesIn s.contents = text.utf8ByteSize)
    (own : ∀ k ∈ kind, ErrorAt errors s.place k) (placed : Tree.PlacedAll (ErrorAt errors) start s.built)
    (inner : Tree.PlacedAll (ErrorAt errors) s.place t.built) :
    Tree.PlacedAll (ErrorAt errors) start (s.resume kind t).built := by
  have flushed := Tree.placedAll_append.mpr ⟨placed, Tree.placedAll_leaves s.pending⟩
  refine Tree.placedAll_append.mpr ⟨flushed, start_inside located whole ▸ ?_⟩
  cases kind with
  | none => exact inner
  | some kind => exact ⟨⟨own kind rfl, inner⟩, trivial⟩

/-- An action that begins error nodes only where an error is reported puts each where one is. -/
theorem Does.placed {text : String} {errors : List SyntaxError} {n : Nat} {a : Action} {s t : State} {b : Bool}
    (done : Does n a s b t) (kept : t.errors <+: errors) (located : s.Located text) {start : Nat}
    (whole : start + bytesIn s.contents = text.utf8ByteSize) {reported after : Bool}
    (checked : a.reporting reported = some after) (known : reported = true → ∃ e ∈ errors, e.start = s.place)
    (placed : Tree.PlacedAll (ErrorAt errors) start s.built) :
    Tree.PlacedAll (ErrorAt errors) start t.built ∧ (after = true → ∃ e ∈ errors, e.start = t.place) := by
  have onward {n : Nat} {a : Action} {s t : State} {b : Bool} {start : Nat} (done : Does n a s b t)
      (whole : start + bytesIn s.contents = text.utf8ByteSize) :
      start + bytesIn t.contents = text.utf8ByteSize := by rw [(reads_stable.does done).contents, whole]
  have earlier {n : Nat} {a : Action} {s t : State} {b : Bool} (done : Does n a s b t)
      (kept : t.errors <+: errors) : s.errors <+: errors := (errors_stable.does done).trans kept
  -- What is built starts at `start`, which inside a node is the place of the next significant token.
  induction done generalizing start reported after with
  | answer | ask =>
    cases checked
    exact ⟨placed, known⟩
  | seq first second ihFirst ihSecond =>
    obtain ⟨middle, left, right⟩ := Option.bind_eq_some_iff.mp checked
    obtain ⟨placed, known⟩ := ihFirst (earlier second kept) located whole left known placed
    exact ihSecond kept ((located_stable text).does first located) (onward first whole) right known placed
  | yes asked way ihAsked ihWay =>
    obtain ⟨middle, question, ways⟩ := Option.bind_eq_some_iff.mp checked
    obtain ⟨left, onYes, further⟩ := Option.bind_eq_some_iff.mp ways
    obtain ⟨right, _, rfl⟩ := Option.map_eq_some_iff.mp further
    obtain ⟨placed, known⟩ := ihAsked (earlier way kept) located whole question known placed
    have done := ihWay kept ((located_stable text).does asked located) (onward asked whole) onYes known placed
    exact ⟨done.1, fun both => done.2 (Bool.and_eq_true_iff.mp both).1⟩
  | no asked way ihAsked ihWay =>
    obtain ⟨middle, question, ways⟩ := Option.bind_eq_some_iff.mp checked
    obtain ⟨left, _, further⟩ := Option.bind_eq_some_iff.mp ways
    obtain ⟨right, onNo, rfl⟩ := Option.map_eq_some_iff.mp further
    obtain ⟨placed, known⟩ := ihAsked (earlier way kept) located whole question known placed
    have done := ihWay kept ((located_stable text).does asked located) (onward asked whole) onNo known placed
    exact ⟨done.1, fun both => done.2 (Bool.and_eq_true_iff.mp both).2⟩
  | bump s =>
    cases checked
    exact ⟨Tree.placedAll_append.mpr ⟨placed, Tree.placedAll_leaves _⟩, nofun⟩
  | node kind inner ih =>
    rw [Action.reporting] at checked
    split at checked
    · cases checked
    · rename_i allowed
      obtain ⟨within, reports⟩ := ih kept located.skip (Cursor.place_add located.unread located.stop) checked
        known trivial
      refine ⟨placed_resume located whole (fun k same => ?_) placed within, reports⟩
      cases same
      intro isError
      simp only [isError, beq_self_eq_true, Bool.true_and, Bool.not_eq_true', Bool.not_eq_false] at allowed
      exact known allowed
  | marked inner ih =>
    obtain ⟨within, reports⟩ := ih kept located.skip (Cursor.place_add located.unread located.stop) checked
      known trivial
    exact ⟨placed_resume located whole nofun placed within, reports⟩
  | wrap kind inner ih =>
    rw [Action.reporting] at checked
    split at checked
    · cases checked
    · rename_i other
      obtain ⟨within, reports⟩ := ih kept located whole checked known placed
      exact ⟨⟨⟨fun isError => absurd (beq_iff_eq.mpr isError) other, within⟩, trivial⟩, reports⟩
  | fail cause s =>
    obtain ⟨e, errors, here, _⟩ := located.exists_report cause
    have member : e ∈ (s.report cause).errors := errors ▸ List.mem_append_right _ (List.mem_singleton_self e)
    exact ⟨placed, fun _ => ⟨e, kept.subset member, here⟩⟩
  | header within inner ih => exact ih kept (located.inHeader within) whole checked known placed
  | moves inner ih => exact ih kept located whole checked known placed
  | again first rest ihFirst ihRest =>
    obtain ⟨_, round, _⟩ := Option.map_eq_some_iff.mp checked
    obtain ⟨placed, _⟩ := ihFirst (earlier rest kept) located whole round nofun placed
    have again : (Action.loop _).reporting false = some after := checked
    exact ihRest kept ((located_stable text).does first located) (onward first whole) again nofun placed
  | stop last ih =>
    obtain ⟨_, round, rfl⟩ := Option.map_eq_some_iff.mp checked
    exact ⟨(ih kept located whole round nofun placed).1, nofun⟩
  | @call _ rule _ _ _ body ih =>
    cases checked
    obtain ⟨_, passed⟩ := Option.isSome_iff_exists.mp rule.reporting_body
    exact ⟨(ih kept located whole passed nofun placed).1, nofun⟩

end Grammar

namespace Parse

open Grammar

theorem errors_ofTokens (tokens : List Token) : (ofTokens tokens).errors = (finalState tokens).errors := by
  rw [ofTokens, finalState, State.flush, Cursor.skip]

theorem located_finalState (text : String) : (finalState (Token.scan text)).Located text :=
  (located_stable text).rule _ .sourceFile _ (.start text)

/-- The error nodes of a tree are where errors are reported. -/
theorem placed_ofText (text : String) : (ofText text).tree.Placed (ErrorAt (ofText text).errors) 0 := by
  obtain ⟨depth, answer, done⟩ := does_finalState (Token.scan text)
  have whole : 0 + bytesIn (State.ofTokens (Token.scan text)).contents = text.utf8ByteSize := by
    rw [contents_ofTokens, Token.bytesIn_scan, Nat.zero_add]
  have checked : (Action.call .sourceFile).reporting false = some false := rfl
  rw [ofText, errors_ofTokens, ofTokens_tree]
  obtain ⟨placed, _⟩ := done.placed (List.prefix_refl _) (.start text) whole checked
    (fun claimed => absurd claimed Bool.false_ne_true) trivial
  exact ⟨fun isError => absurd isError (by decide), Tree.placedAll_append.mpr ⟨placed, Tree.placedAll_leaves _⟩⟩

/-- The errors of a text are in the order of their places. Each points at a significant token, or at the end of the
text, and an error node starts where an error does. -/
theorem errors_in_order (text : String) :
    ((ofText text).errors.Pairwise fun a b => a.start ≤ b.start) ∧
      (∀ e ∈ (ofText text).errors,
        (∃ t ∈ Token.scan text, t.kind.isTrivia = false ∧ e.start = t.start ∧ e.stop = t.stop) ∨
          e.start = text.utf8ByteSize ∧ e.stop = text.utf8ByteSize) ∧
      ∀ n ∈ (Node.root (ofText text).tree).descendants, n.kind = .error →
        ∃ e ∈ (ofText text).errors, e.start = n.start := by
  have located := located_finalState text
  have placed := placed_ofText text
  rw [ofText, errors_ofTokens] at placed ⊢
  refine ⟨located.sorted, located.points, fun n member isError => ?_⟩
  exact Node.may_of_mem_descendants (n := Node.root _) placed member isError

/-- A stray bracket, and a variable without a name at the end. -/
def unnamed : String :=
  "package p\n) // é\nvar\n"

theorem errors_in_order_unnamed :
    (ofText unnamed).errors.map (fun e => (e.start, e.stop)) = [(10, 11), (22, 22)] ∧
      ((ofText unnamed).errors.Pairwise fun a b => a.start ≤ b.start) ∧
      (∃ e ∈ (ofText unnamed).errors, ∃ t ∈ Token.scan unnamed, t.kind.isTrivia = false ∧
        e.start = t.start ∧ e.stop = t.stop) ∧
      ∃ n ∈ (Node.root (ofText unnamed).tree).descendants, n.kind = .error ∧
        ∃ e ∈ (ofText unnamed).errors, e.start = n.start := by
  have facts : (((ofText unnamed).errors.map fun e => (e.start, e.stop)) == [(10, 11), (22, 22)] &&
      (ofText unnamed).errors.any (·.start != unnamed.utf8ByteSize) &&
      (Node.root (ofText unnamed).tree).descendants.any (·.kind == .error)) = true := by decide +kernel
  simp only [Bool.and_eq_true, beq_iff_eq, bne_iff_ne, List.any_eq_true] at facts
  obtain ⟨⟨places, e, member, inside⟩, n, below, isError⟩ := facts
  obtain ⟨sorted, points, nodes⟩ := errors_in_order unnamed
  exact ⟨places, sorted, ⟨e, member, (points e member).resolve_right fun atEnd => inside atEnd.1⟩,
    n, below, isError, nodes n below isError⟩

end Parse

end GoNav
