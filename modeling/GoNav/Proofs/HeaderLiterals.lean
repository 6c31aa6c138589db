import GoNav.Proofs.Grammar.Building
import GoNav.Proofs.Grammar.Holders
import GoNav.Proofs.Node.Ancestors

namespace GoNav

/-- The bracket behind which the inside of a node stands. -/
def Kind.opening? : Kind → Option Kind
  | .block | .literalValue => some .leftBrace
  | .parenExpr | .argumentList | .conversionExpr | .parameters => some .leftParen
  | .indexExpr | .sliceExpr | .arrayType => some .leftBracket
  | _ => none

/-- What stands behind the header of a statement that has one. -/
def Kind.bodies? : Kind → Option (List Kind)
  | .ifStatement => some [.block, .ifStatement]
  | .forStatement => some [.block]
  | .switchStatement => some [.caseClause, .error]
  | _ => none

namespace Node

def opening? (n : Node) : Option Leaf :=
  n.kind.opening?.bind n.token

/-- The nodes in the header of a statement. -/
def headerChildren (n : Node) : List Node :=
  n.kind.bodies?.elim [] fun bodies => n.children.filter (!bodies.contains ·.kind)

/-- Whether a node is a composite literal whose type is a name. -/
def isNamedLiteral (n : Node) : Bool :=
  n.kind == .compositeLit && n.typeExpr.any (·.kind == .typeName)

/-- On the way from a node to one below it there is one behind whose opening bracket the latter stands. -/
def Brackets (n m : Node) : Prop :=
  ∃ g ∈ n.descendants, m ∈ g.descendants ∧ ∃ o, g.opening? = some o ∧ o.stop ≤ m.start

end Node

/-- A tree has a composite literal with a named type in it, and the opening brackets of the nodes around that
do not stand before it. -/
inductive Tree.Exposed : Tree → Prop
  | literal {children : List Tree} (named : (Tree.nodeKinds children).find? Kind.isTypeExpr = some .typeName) :
      Exposed (.node .compositeLit children)
  | inside {kind : Kind} {children left right : List Tree} {t : Tree} (split : children = left ++ t :: right)
      (outside : ∀ k ∈ kind.opening?, ∀ text, .token k text ∉ left) (exposed : Exposed t) :
      Exposed (.node kind children)

namespace Grammar

/-! Trees in which no such literal is exposed -/

def Covered (trees : List Tree) : Prop :=
  ∀ t ∈ trees, ¬ t.Exposed

theorem covered_nil : Covered [] :=
  fun _ member => absurd member List.not_mem_nil

theorem Covered.append {left right : List Tree} (before : Covered left) (behind : Covered right) :
    Covered (left ++ right) :=
  fun t member => (List.mem_append.mp member).elim (before t) (behind t)

theorem covered_leaves (tokens : List Token) : Covered (tokens.map State.leaf) := by
  intro t member exposed
  obtain ⟨token, _, rfl⟩ := List.mem_map.mp member
  cases exposed

theorem covered_node {kind : Kind} {children : List Tree} (hidden : ¬ (Tree.node kind children).Exposed) :
    Covered [.node kind children] :=
  fun _ member => List.mem_singleton.mp member ▸ hidden

theorem not_exposed {kind : Kind} {children : List Tree} (covered : Covered children)
    (other : kind ≠ .compositeLit ∨ .typeName ∉ Tree.nodeKinds children) : ¬ (Tree.node kind children).Exposed := by
  intro exposed
  cases exposed with
  | literal named => exact other.elim (absurd rfl) (absurd (List.mem_of_find?_eq_some named))
  | inside split _ inner => exact covered _ (by simp [split]) inner

/-- What stands behind the opening bracket of a node is not exposed. -/
theorem not_exposed_of_opening {kind k : Kind} {text : String} {left right : List Tree}
    (opens : kind.opening? = some k) (covered : Covered left) :
    ¬ (Tree.node kind (left ++ .token k text :: right)).Exposed := by
  intro exposed
  cases exposed with
  | literal => cases opens
  | inside split outside inner =>
    rcases List.append_eq_append_iff.mp split with ⟨more, rfl, rest⟩ | ⟨more, rfl, rest⟩
    · cases more with
      | nil =>
        cases rest
        cases inner
      | cons first others =>
        cases rest
        exact outside k opens text (by simp)
    · cases more with
      | nil =>
        cases rest
        cases inner
      | cons first others =>
        cases rest
        exact covered _ (by simp) inner

theorem Covered.flush {s : State} (covered : Covered s.built) : Covered s.flush.built :=
  covered.append (covered_leaves _)

theorem Covered.bump {s : State} (covered : Covered s.built) : Covered s.bump.built :=
  covered.append (covered_leaves _)

theorem exists_bump {s : State} {k : Kind} (current : (Look.current k).holds s.view = true) :
    ∃ text, s.bump.built = (s.built ++ s.pending.map State.leaf) ++ [.token k text] := by
  cases ahead : s.ahead with
  | nil => simp [Look.holds, Cursor.view, ahead] at current
  | cons l rest =>
    have kind : l.token.kind = k := by simpa [Look.holds, Cursor.view, ahead, Lexeme.kind] using current
    refine ⟨l.token.text, ?_⟩
    simp [State.bump, Cursor.upcoming, ahead, State.leaf, kind]

/-- A node around all that there is, the bracket ahead and whatever follows. -/
theorem Covered.wrap {n : Nat} {kind k : Kind} {rest : Action} {s t : State} {b : Bool} (covered : Covered s.built)
    (current : (Look.current k).holds s.view = true) (done : Does n rest s.bump b t)
    (opens : kind.opening? = some k) (wraps : rest.wrapsMarked false = true) : Covered [.node kind t.built] := by
  obtain ⟨text, built⟩ := exists_bump current
  obtain ⟨more, whole⟩ := done.prefix_built wraps
  refine covered_node ?_
  rw [← whole, built, List.append_assoc]
  exact not_exposed_of_opening opens (covered.append (covered_leaves _))

/-- A node that starts with the bracket ahead. -/
theorem Covered.node {n : Nat} {kind k : Kind} {rest : Action} {s t : State} {b : Bool} (covered : Covered s.built)
    (current : (Look.current k).holds s.view = true) (done : Does n rest s.inside.bump b t)
    (opens : kind.opening? = some k) (wraps : rest.wrapsMarked false = true) :
    Covered (s.resume (some kind) t).built := by
  have inside : Covered s.inside.built := covered_nil
  exact covered.flush.append (inside.wrap current done opens wraps)

/-! What actions add by themselves -/

/-- The kind of node that a rule builds, if it builds one of all that it reads. -/
def Rule.node? (rule : Rule) : Option Kind :=
  match rule.body with
  | .node kind _ => some kind
  | _ => none

/-- Whether an action adds only tokens and nodes of some kinds. -/
def Action.addsOnly (kinds : List Kind) : Action → Bool
  | .seq first second => first.addsOnly kinds && second.addsOnly kinds
  | .branch question yes no => question.addsOnly kinds && yes.addsOnly kinds && no.addsOnly kinds
  | .node kind _ => kinds.contains kind
  | .moves inner | .loop inner => inner.addsOnly kinds
  | .call rule => rule.node?.any kinds.contains
  | .marked _ | .wrap _ _ | .header _ _ => false
  | .answer _ | .ask _ | .bump | .fail _ => true

def Adds (kinds : List Kind) (s t : State) : Prop :=
  ∃ more, t.built = s.built ++ more ∧ ∀ kind ∈ Tree.nodeKinds more, kind ∈ kinds

namespace Adds

variable {kinds : List Kind} {s t u : State}

theorem refl (s : State) : Adds kinds s s :=
  ⟨[], (List.append_nil _).symm, fun _ member => absurd member List.not_mem_nil⟩

theorem trans (first : Adds kinds s t) (second : Adds kinds t u) : Adds kinds s u := by
  obtain ⟨more, built, among⟩ := first
  obtain ⟨further, built', among'⟩ := second
  refine ⟨more ++ further, by rw [built', built, List.append_assoc], fun kind member => ?_⟩
  rw [Tree.nodeKinds, List.filterMap_append] at member
  exact (List.mem_append.mp member).elim (among kind) (among' kind)

theorem leaves (tokens : List Token) (built : t.built = s.built ++ tokens.map State.leaf) : Adds kinds s t :=
  ⟨_, built, by simp [nodeKinds_leaves]⟩

theorem node {kind : Kind} (own : kind ∈ kinds) (s t : State) : Adds kinds s (s.resume (some kind) t) := by
  have flushed : Adds kinds s s.flush := leaves s.pending rfl
  refine flushed.trans ⟨[.node kind t.built], rfl, fun other member => ?_⟩
  cases List.mem_singleton.mp member
  exact own

theorem not_mem {kind : Kind} (adds : Adds kinds s t) (before : kind ∉ Tree.nodeKinds s.built) (other : kind ∉ kinds) :
    kind ∉ Tree.nodeKinds t.built := by
  obtain ⟨more, built, among⟩ := adds
  rw [built, Tree.nodeKinds, List.filterMap_append]
  exact fun member => (List.mem_append.mp member).elim before fun added => other (among kind added)

end Adds

theorem Does.adds {kinds : List Kind} {n : Nat} {a : Action} {s t : State} {b : Bool} (done : Does n a s b t)
    (only : a.addsOnly kinds = true) : Adds kinds s t := by
  induction done with
  | answer | ask | fail => exact .refl _
  | seq _ _ ihFirst ihSecond =>
    obtain ⟨left, right⟩ := Bool.and_eq_true_iff.mp only
    exact (ihFirst left).trans (ihSecond right)
  | yes _ _ ihAsked ihWay =>
    simp only [Action.addsOnly, Bool.and_eq_true] at only
    exact (ihAsked only.1.1).trans (ihWay only.1.2)
  | no _ _ ihAsked ihWay =>
    simp only [Action.addsOnly, Bool.and_eq_true] at only
    exact (ihAsked only.1.1).trans (ihWay only.2)
  | bump s => exact .leaves s.upcoming rfl
  | node kind _ _ => exact .node (List.contains_iff_mem.mp only) _ _
  | marked | wrap | header => cases only
  | moves _ ih | stop _ ih => exact ih only
  | again _ _ ihFirst ihRest => exact (ihFirst only).trans (ihRest only)
  | @call _ rule _ _ _ body _ =>
    obtain ⟨kind, builds, among⟩ := (Option.any_eq_true _ _).mp only
    simp only [Rule.node?] at builds
    split at builds
    · rename_i inner whole
      cases builds
      rw [whole] at body
      cases body with
      | node _ _ => exact .node (List.contains_iff_mem.mp among) _ _
    · cases builds

/-! Rules leave the mode in which they are called -/

theorem inHeader_stable : Stable fun s t => t.inHeader = s.inHeader where
  refl _ := rfl
  trans first second := second.trans first
  bump s := by
    cases ahead : s.ahead <;> simp [State.bump, Cursor.advance, Cursor.skip, ahead]
  report _ _ := rfl
  node _ inner := inner
  marked inner := inner
  wrap _ inner := inner
  header _ _ := rfl

/-! What is done in a header -/

/-- The rules that are followed in headers outside brackets. -/
def Rule.isOfHeader : Rule → Bool
  | .headerPart | .forHeader | .simpleStatement | .shortVarDecl | .expressionList | .expression | .binary _
  | .unary | .primary | .operand | .typ | .typeName | .typeReference | .typeParameters | .bracketRest
  | .structType | .fieldDecl | .interfaceType | .interfaceElement | .signature | .parameters => true
  | _ => false

/-- Whether an action stays in the header, follows only rules of headers, and builds no literal. -/
def Action.isOfHeader : Action → Bool
  | .seq first second => first.isOfHeader && second.isOfHeader
  | .branch question yes no => question.isOfHeader && yes.isOfHeader && no.isOfHeader
  | .node kind inner | .wrap kind inner => kind != .compositeLit && inner.isOfHeader
  | .marked inner | .moves inner | .loop inner => inner.isOfHeader
  | .call rule => rule.isOfHeader
  | .header _ _ => false
  | .answer _ | .ask _ | .bump | .fail _ => true

section

variable {n : Nat} {s t : State} {b : Bool}

/-- Whether rules of headers, if followed in a header, leave everything covered. -/
def CallsCover (n : Nat) : Prop :=
  ∀ {rule : Rule} {s t : State} {b : Bool}, Does n (.call rule) s b t → rule.isOfHeader = true →
    s.inHeader = true → Covered s.built → Covered t.built

theorem Does.inHeader {a : Action} (done : Does n a s b t) (within : s.inHeader = true) : t.inHeader = true :=
  (inHeader_stable.does done).trans within

theorem Does.covered (calls : CallsCover n) {a : Action} (done : Does n a s b t) (of : a.isOfHeader = true)
    (within : s.inHeader = true) (covered : Covered s.built) : Covered t.built := by
  induction done with
  | answer | ask | fail => exact covered
  | seq first _ ihFirst ihSecond =>
    obtain ⟨left, right⟩ := Bool.and_eq_true_iff.mp of
    exact ihSecond calls right (first.inHeader within) (ihFirst calls left within covered)
  | yes asked _ ihAsked ihWay =>
    simp only [Action.isOfHeader, Bool.and_eq_true] at of
    exact ihWay calls of.1.2 (asked.inHeader within) (ihAsked calls of.1.1 within covered)
  | no asked _ ihAsked ihWay =>
    simp only [Action.isOfHeader, Bool.and_eq_true] at of
    exact ihWay calls of.2 (asked.inHeader within) (ihAsked calls of.1.1 within covered)
  | bump => exact covered.bump
  | node kind _ ih =>
    simp only [Action.isOfHeader, Bool.and_eq_true, bne_iff_ne] at of
    have inner := ih calls of.2 within covered_nil
    exact covered.flush.append (covered_node (not_exposed inner (.inl of.1)))
  | marked _ ih => exact covered.flush.append (ih calls of within covered_nil)
  | wrap kind _ ih =>
    simp only [Action.isOfHeader, Bool.and_eq_true, bne_iff_ne] at of
    exact covered_node (not_exposed (ih calls of.2 within covered) (.inl of.1))
  | header => cases of
  | moves _ ih | stop _ ih => exact ih calls of within covered
  | again first _ ihFirst ihRest =>
    exact ihRest calls of (first.inHeader within) (ihFirst calls of within covered)
  | call body _ => exact calls (.call body) of within covered

theorem Does.covered_choose (calls : CallsCover n) {ways : List (Look × Action)} {otherwise : Action}
    (done : Does n (.choose ways otherwise) s b t) (within : s.inHeader = true) (covered : Covered s.built)
    (special : ∀ way ∈ ways.filter (!·.2.isOfHeader), way.1.holds s.view = true → Does n way.2 s b t →
      Covered t.built)
    (of : otherwise.isOfHeader = true) : Covered t.built :=
  done.of_choose_checked (fun gone of => gone.covered calls of within covered) special of

/-- The token ahead is taken, whatever it is or because it is expected. -/
inductive Action.Takes (k : Kind) : Action → Prop
  | bump : Takes k .bump
  | expect : Takes k (.expect k)

theorem Does.eq_bump {k : Kind} {a : Action} (done : Does n a s b t) (takes : a.Takes k)
    (current : (Look.current k).holds s.view = true) : t = s.bump := by
  cases takes with
  | bump =>
    cases done
    rfl
  | expect =>
    rcases done.of_expect with ⟨_, _, bumped⟩ | ⟨_, missing, _⟩
    · exact bumped
    · rw [current] at missing
      cases missing

theorem Covered.bracket {kind k : Kind} {first rest : Action} (covered : Covered s.built)
    (current : (Look.current k).holds s.view = true) (done : Does n (.node kind (.seq first rest)) s b t)
    (takes : first.Takes k) (opens : kind.opening? = some k) (wraps : rest.wrapsMarked false = true) :
    Covered t.built := by
  cases done with
  | node _ inner =>
    cases inner with
    | seq taken behind =>
      cases taken.eq_bump takes current
      exact covered.node current behind opens wraps

theorem covered_parameters (done : Does n Rule.parameters.body s b t) (covered : Covered s.built) :
    Covered t.built := by
  cases done with
  | node _ inner =>
    cases inner with
    | yes paren behind =>
      rcases paren.of_expect with ⟨_, current, rfl⟩ | ⟨no, _⟩
      · exact covered.node current behind rfl rfl
      · cases no
    | no paren stopped =>
      cases stopped
      rcases paren.of_expect with ⟨yes, _⟩ | ⟨_, _, rfl⟩
      · cases yes
      · exact covered.flush.append (covered_node (not_exposed covered_nil (.inl (by decide))))

theorem covered_typ (calls : CallsCover n) (done : Does n Rule.typ.body s b t) (within : s.inHeader = true)
    (covered : Covered s.built) : Covered t.built := by
  refine done.covered_choose calls within covered (fun way member current gone => ?_) rfl
  cases List.mem_singleton.mp member
  exact covered.bracket current gone .bump rfl rfl

theorem Covered.indices {kind : Kind} (covered : Covered s.built)
    (current : (Look.current .leftBracket).holds s.view = true)
    (done : Does n (.seq (.wrap kind Grammar.indices) .yes) s b t) (opens : kind.opening? = some .leftBracket) :
    Covered t.built := by
  cases done with
  | seq wrapped last =>
    cases last
    cases wrapped with
    | wrap _ inner =>
      cases inner with
      | seq bumped behind =>
        cases bumped
        exact covered.wrap current behind opens rfl

/-- Arguments and indices stand in brackets. -/
theorem covered_primary (calls : CallsCover n) (done : Does n Rule.primary.body s b t) (within : s.inHeader = true)
    (covered : Covered s.built) : Covered t.built := by
  cases done with
  | marked inner =>
    cases inner with
    | seq operand loop =>
      have first := calls operand rfl within covered_nil
      refine covered.flush.append (loop.of_loop (P := fun s => s.inHeader = true ∧ Covered s.built) ?_
        ⟨operand.inHeader within, first⟩).2
      rintro s b t ⟨within, covered⟩ round
      refine ⟨round.inHeader within, ?_⟩
      rcases round.of_branch with ⟨_, stopped⟩ | ⟨_, round⟩
      · cases stopped
        exact covered
      · refine round.covered_choose calls within covered (fun way member asked gone => ?_) rfl
        have special : way ∈ [_, _, _] := member
        simp only [List.mem_cons, List.not_mem_nil, or_false] at special
        rcases special with rfl | rfl | rfl
        · cases gone with
          | seq wrapped last =>
            cases last
            cases wrapped with
            | wrap _ called =>
              cases called with
              | call body =>
                exact covered_node (not_exposed (covered.bracket asked body .bump rfl rfl) (.inl (by decide)))
        · exact covered.indices (Bool.and_eq_true_iff.mp asked).1 gone rfl
        · exact covered.indices asked gone rfl

/-- Unless it starts with a name, a type is no type name. -/
theorem typeName_not_mem (done : Does n (.call .typ) s b t) (other : (Look.current .ident).holds s.view = false)
    (none : s.built = []) : .typeName ∉ Tree.nodeKinds t.built := by
  cases done with
  | call body =>
    rcases body.of_branch with ⟨name, _⟩ | ⟨_, later⟩
    · rw [other] at name
      cases name
    · have added : Adds [.pointerType, .arrayType, .mapType, .chanType, .functionType, .structType, .interfaceType,
          .parenType] s t := later.adds rfl
      exact added.not_mem (none ▸ List.not_mem_nil) (by decide)

theorem not_ident {kinds : List Kind} {v : View} (asked : (Look.currentAny kinds).holds v = true)
    (other : kinds.contains .ident = false) : (Look.current .ident).holds v = false := by
  simp only [Look.holds] at asked ⊢
  cases ahead : v.ahead.head? with
  | none => rfl
  | some l =>
    simp only [ahead, Option.any_some] at asked ⊢
    refine beq_eq_false_iff_ne.mpr fun same => ?_
    rw [same, other] at asked
    cases asked

/-- The body of a function is in braces. -/
theorem covered_function (calls : CallsCover n)
    (done : Does n (.marked (.seq .bump (.seq (.call .signature)
      (.branch (.ask (.current .leftBrace)) (.wrap .functionLit (.call .block)) (.wrap .functionType .yes))))) s b t)
    (within : s.inHeader = true) (covered : Covered s.built) : Covered t.built := by
  cases done with
  | marked inner =>
    cases inner with
    | seq bumped behind =>
      have start := bumped.inHeader within
      cases bumped
      cases behind with
      | seq signed body =>
        have signature := calls signed rfl start covered_nil.bump
        refine covered.flush.append ?_
        rcases body.of_branch with ⟨current, wrapped⟩ | ⟨_, wrapped⟩
        · cases wrapped with
          | wrap _ called =>
            cases called with
            | call block =>
              have inside := signature.bracket current block .expect rfl rfl
              exact covered_node (not_exposed inside (.inl (by decide)))
        · exact wrapped.covered calls rfl (signed.inHeader start) signature

/-- What follows a type that is no name makes a literal, whose type it is, or a conversion. -/
theorem covered_behind_typ (calls : CallsCover n) {rest : Action}
    (done : Does n (.choose
      [(.current .leftBrace, .wrap .compositeLit (.call .literalValue)),
       (.current .leftParen, .wrap .conversionExpr (.seq .bump rest))] .yes) s b t)
    (wraps : rest.wrapsMarked false = true) (within : s.inHeader = true) (covered : Covered s.built)
    (unnamed : .typeName ∉ Tree.nodeKinds s.built) : Covered t.built := by
  rcases done.of_choose with ⟨way, member, current, gone⟩ | ⟨_, stopped⟩
  · simp only [List.mem_cons, List.not_mem_nil, or_false] at member
    rcases member with rfl | rfl
    · cases gone with
      | wrap _ called =>
        have added : Adds [.literalValue] _ _ := called.adds rfl
        cases called with
        | call value =>
          have inside := covered.bracket current value .expect rfl rfl
          exact covered_node (not_exposed inside (.inr (added.not_mem unnamed (by decide))))
    · cases gone with
      | wrap _ inner =>
        cases inner with
        | seq bumped behind =>
          cases bumped
          exact covered.wrap current behind rfl wraps
  · exact stopped.covered calls rfl within covered

theorem covered_operand (calls : CallsCover n) (done : Does n Rule.operand.body s b t) (within : s.inHeader = true)
    (covered : Covered s.built) : Covered t.built := by
  refine done.covered_choose calls within covered (fun way member asked gone => ?_) rfl
  have special : way ∈ [_, _, _, _] := member
  simp only [List.mem_cons, List.not_mem_nil, or_false] at special
  rcases special with rfl | rfl | rfl | rfl
  · -- in a header a name is not taken for the type of a literal
    have outside := (Bool.and_eq_true_iff.mp asked).1
    simp [Look.holds, Cursor.view, within] at outside
  · exact covered.bracket asked gone .bump rfl rfl
  · exact covered_function calls gone within covered
  · cases gone with
    | marked inner =>
      cases inner with
      | seq typed behind =>
        have typ := calls typed rfl within covered_nil
        have unnamed := typeName_not_mem typed (not_ident asked rfl) rfl
        exact covered.flush.append (covered_behind_typ calls behind rfl (typed.inHeader within) typ unnamed)

end

theorem Rule.isOfHeader_binary (least : Nat) : (Rule.binary least).body.isOfHeader = true := by
  simp only [body, Action.isOfHeader, Bool.true_and]
  refine Action.choose_induction (motive := fun a => a.isOfHeader = true) ?_ rfl ?_
  · intro way member
    obtain ⟨level, among, rfl⟩ := List.mem_map.mp member
    have plain : ∀ level ∈ operatorLevels, (level.kind != .compositeLit) = true := by decide
    simp [Action.isOfHeader, Action.yes, isOfHeader, plain level (List.mem_filter.mp among).1]
  · intro look yes no onYes onNo
    simp only [Action.isOfHeader, onYes, onNo, Bool.and_true]

/-- In a header no literal with a named type is built outside brackets. -/
theorem callsCover (n : Nat) : CallsCover n := by
  induction n with
  | zero =>
    intro _ _ _ _ done
    cases done
  | succ n ih =>
    intro rule s t b done of within covered
    cases done with
    | call body =>
      cases rule with
      | parameters => exact covered_parameters body covered
      | typ => exact covered_typ ih body within covered
      | primary => exact covered_primary ih body within covered
      | operand => exact covered_operand ih body within covered
      | binary least => exact body.covered ih (Rule.isOfHeader_binary least) within covered
      | _ => first | exact body.covered ih rfl within covered | cases of

/-! The headers of statements -/

/-- In the header of a statement no literal with a named type stands outside brackets. -/
def Heads (kind : Kind) (children : List Tree) : Prop :=
  ∀ bodies ∈ kind.bodies?, ∀ t ∈ children, t.kind ∉ bodies → ¬ t.Exposed

theorem heads_of_isNone {kind : Kind} (other : kind.bodies?.isNone = true) (children : List Tree) :
    Heads kind children := by
  intro bodies known
  rw [Option.isNone_iff_eq_none.mp other] at known
  cases known

section

variable {n : Nat} (calls : ∀ {rule s b t}, Does n (.call rule) s b t → s.Tidy →
  Tree.ShapedAll Heads s.built → Tree.ShapedAll Heads t.built)
include calls

/-- A statement is a keyword, its header, and what stands behind that. -/
theorem heads_statement {kind : Kind} {head rest : Action} {bodies : List Kind} {s t : State} {b : Bool}
    (done : Does n (.node kind (.seq .bump (.seq (.header true head) rest))) s b t) (tidy : s.Tidy)
    (kept : Tree.ShapedAll Heads s.built) (known : kind.bodies? = some bodies) (of : head.isOfHeader = true)
    (only : rest.addsOnly bodies = true)
    (builds : (Action.seq head rest).buildsOnly (·.bodies?.isNone) = true) : Tree.ShapedAll Heads t.built := by
  cases done with
  | node _ inner =>
    have below := inner.shapedAll tidy_invariant (fun _ => heads_of_isNone) calls builds tidy.skip trivial
    refine shapedAll_append (shapedAll_flush kept) ⟨⟨fun bodies' known' t member other => ?_, below⟩, trivial⟩
    cases known.symm.trans known'
    cases inner with
    | seq bumped behind =>
      cases bumped
      cases behind with
      | seq header last =>
        cases header with
        | header _ within =>
          obtain ⟨more, built, among⟩ := last.adds only
          rw [built] at member
          rcases List.mem_append.mp member with first | later
          · exact within.covered (callsCover n) of rfl covered_nil.bump t first
          · cases t with
            | token kind text =>
              intro exposed
              cases exposed
            | node kind trees => exact absurd (among kind (List.mem_filterMap.mpr ⟨_, later, rfl⟩)) other

end

theorem Rule.buildsOnly_or_headed (rule : Rule) :
    rule.body.buildsOnly (·.bodies?.isNone) = true ∨ rule ∈ [.ifStatement, .forStatement, .switchStatement] := by
  cases rule with
  | ifStatement | forStatement | switchStatement => exact .inr (by decide)
  | binary least => exact .inl (Rule.buildsOnly_binary (by decide) least)
  | paramDecl named => cases named <;> exact .inl rfl
  | _ => exact .inl rfl

theorem heads_call {n : Nat} {rule : Rule} {s t : State} {b : Bool} (done : Does n (.call rule) s b t)
    (tidy : s.Tidy) (kept : Tree.ShapedAll Heads s.built) : Tree.ShapedAll Heads t.built := by
  induction n generalizing rule s t b with
  | zero => cases done
  | succ n ih =>
    cases done with
    | call body =>
      rcases rule.buildsOnly_or_headed with builds | headed
      · exact body.shapedAll tidy_invariant (fun _ => heads_of_isNone) ih builds tidy kept
      · simp only [List.mem_cons, List.not_mem_nil, or_false] at headed
        rcases headed with rfl | rfl | rfl
        · exact heads_statement ih body tidy kept rfl rfl rfl rfl
        · exact heads_statement ih body tidy kept rfl rfl rfl rfl
        · exact heads_statement ih body tidy kept rfl rfl rfl rfl

end Grammar

theorem Parse.heads (text : String) : (ofText text).tree.Shaped Grammar.Heads := by
  obtain ⟨depth, answer, done⟩ := does_finalState (Token.scan text)
  refine ⟨Grammar.heads_of_isNone rfl _, Grammar.shapedAll_flush ?_⟩
  exact Grammar.heads_call done (Grammar.Cursor.Tidy.ofTokens _) trivial

namespace Node

theorem find_typeExpr {n : Node} (named : n.isNamedLiteral = true) :
    n.kind = .compositeLit ∧ (Tree.nodeKinds n.trees).find? Kind.isTypeExpr = some .typeName := by
  obtain ⟨kind, typed⟩ := Bool.and_eq_true_iff.mp named
  obtain ⟨c, found, name⟩ := (Option.any_eq_true _ _).mp typed
  refine ⟨beq_iff_eq.mp kind, ?_⟩
  have first : n.children.find? (Kind.isTypeExpr ∘ Node.kind) = some c := found
  rw [nodeKinds_trees, List.find?_map, first, Option.map_some, beq_iff_eq.mp name]

theorem mem_headerChildren {n c : Node} (member : c ∈ n.headerChildren) :
    ∃ bodies, n.kind.bodies? = some bodies ∧ c ∈ n.children ∧ c.kind ∉ bodies := by
  unfold headerChildren at member
  cases known : n.kind.bodies? with
  | none => simp [known] at member
  | some bodies =>
    have both : c ∈ n.children ∧ c.kind ∉ bodies := by simpa [known] using member
    exact ⟨bodies, rfl, both⟩

/-- A leaf before a child ends before whatever stands in that child. -/
theorem stop_le_start {n c m : Node} {before after : List Element} {l : Leaf}
    (split : n.elements = before ++ .node c :: after) (member : .leaf l ∈ before) (below : m ∈ c.descendants) :
    l.stop ≤ m.start := by
  have ordered := pairwise_elementsIn n 0 n.start n.trees
  rw [← elements, split] at ordered
  have apart : l.stop ≤ c.start :=
    (List.pairwise_append.mp ordered).2.2 _ member _ (List.mem_cons_self ..)
  exact Nat.le_trans apart (bounds_of_mem_descendants below).1

/-- Where a bracket of the right kind stands before a child, the opening bracket does. -/
theorem exists_opening {n c : Node} {k : Kind} {before after : List Element} {l : Leaf}
    (opens : n.kind.opening? = some k) (split : n.elements = before ++ .node c :: after) (member : .leaf l ∈ before)
    (kind : l.kind = k) : ∃ o, n.opening? = some o ∧ .leaf o ∈ before := by
  have found : ((before.filterMap Element.leaf?).find? (·.kind == k)).isSome = true :=
    List.find?_isSome.mpr ⟨l, List.mem_filterMap.mpr ⟨_, member, rfl⟩, beq_iff_eq.mpr kind⟩
  obtain ⟨o, first⟩ := Option.isSome_iff_exists.mp found
  obtain ⟨e, among, isLeaf⟩ := List.mem_filterMap.mp (List.mem_of_find?_eq_some first)
  refine ⟨o, ?_, ?_⟩
  · rw [opening?, opens, Option.bind_some, token, tokens, split, List.filterMap_append, List.find?_append, first]
    rfl
  · cases e with
    | node => cases isLeaf
    | leaf => exact Option.some.inj isLeaf ▸ among

theorem exposed_or_brackets {n m : Node} (member : m ∈ n.descendants) (named : m.isNamedLiteral = true) :
    (Tree.node n.kind n.trees).Exposed ∨ n.Brackets m := by
  induction n using children_induction with
  | step n ih =>
    rcases mem_descendants.mp member with rfl | ⟨c, child, below⟩
    · obtain ⟨kind, typed⟩ := find_typeExpr named
      exact .inl (kind ▸ .literal typed)
    rcases ih c child below with exposed | ⟨g, inside, around, opened⟩
    · obtain ⟨before, after, split⟩ := List.append_of_mem (mem_children.mp child)
      by_cases bracket : ∃ l k, .leaf l ∈ before ∧ n.kind.opening? = some k ∧ l.kind = k
      · obtain ⟨l, k, there, opens, kind⟩ := bracket
        obtain ⟨o, opening, first⟩ := exists_opening opens split there kind
        exact .inr ⟨n, self_mem_descendants n, member, o, opening, stop_le_start split first below⟩
      · have trees : n.trees = before.map Element.tree ++ .node c.kind c.trees :: after.map Element.tree := by
          rw [← map_tree_elements, split, List.map_append, List.map_cons]
          rfl
        refine .inl (.inside trees (fun k opens text there => bracket ?_) exposed)
        obtain ⟨e, among, isToken⟩ := List.mem_map.mp there
        cases e with
        | node => cases isToken
        | leaf l => exact ⟨l, k, among, opens, (Tree.token.inj isToken).1⟩
    · exact .inr ⟨g, mem_descendants.mpr (.inr ⟨c, child, inside⟩), around, opened⟩

end Node

/-- In the header of a statement a composite literal with a named type stands only behind an opening bracket.
And whatever rule is followed, whether a header is being read is behind it as it was before. -/
theorem Parse.headers_bracket_literals :
    (∀ text, ∀ n ∈ (Node.root (ofText text).tree).descendants, ∀ c ∈ n.headerChildren, ∀ m ∈ c.descendants,
      m.isNamedLiteral = true → c.Brackets m) ∧
    ∀ (rule : Grammar.Rule) (depth : Nat) (s : Grammar.State), (rule.run depth s).2.inHeader = s.inHeader := by
  refine ⟨fun text n member c head m below named => ?_, fun rule depth => Grammar.inHeader_stable.rule depth rule⟩
  obtain ⟨bodies, known, child, other⟩ := Node.mem_headerChildren head
  have shape := Node.shape_of_mem_descendants (Parse.heads text) member
  have tree := (Node.mem_elementsIn (Node.mem_children.mp child)).1
  exact (Node.exposed_or_brackets below named).resolve_left (shape bodies known _ tree other)

/-- A literal in parentheses is compared in the header of an `if` statement. -/
theorem Parse.headers_bracket_literals_compared :
    ∃ n ∈ (Node.root (ofText "package p; func f() \x7b if x == (T\x7b\x7d) \x7b\x7d \x7d").tree).descendants,
      n.kind = .ifStatement ∧ ∃ c ∈ n.headerChildren, c.kind = .conditionalExpr ∧
        ∃ m ∈ c.descendants, m.isNamedLiteral = true ∧ c.Brackets m := by
  have brackets := headers_bracket_literals.1 "package p; func f() \x7b if x == (T\x7b\x7d) \x7b\x7d \x7d"
  have facts :
      ((Node.root (ofText "package p; func f() \x7b if x == (T\x7b\x7d) \x7b\x7d \x7d").tree).descendants.any fun n =>
        n.kind == .ifStatement && n.headerChildren.any fun c => c.kind == .conditionalExpr &&
          c.descendants.any Node.isNamedLiteral) = true := by
    decide +kernel
  generalize (Node.root (ofText "package p; func f() \x7b if x == (T\x7b\x7d) \x7b\x7d \x7d").tree).descendants = nodes
    at brackets facts ⊢
  simp only [List.any_eq_true, Bool.and_eq_true, beq_iff_eq] at facts
  obtain ⟨n, member, kind, c, head, compared, m, below, named⟩ := facts
  exact ⟨n, member, kind, c, head, compared, m, below, named, brackets n member c head m below named⟩

end GoNav
