import GoNav.Proofs.Grammar.Children
import GoNav.Proofs.Node.Twins
import GoNav.Proofs.Occurrence
import GoNav.Proofs.Token.Munch

namespace GoNav

/-! Names stand apart in a text -/

namespace Token

open Pattern

theorem eq_ident_pattern {entry : Kind × Pattern} (member : entry ∈ patterns) (ident : entry.1 = .ident) :
    entry.2 = .seq identStart (.star identRest) := by
  have only : patterns.filter (·.1 == .ident) = [(.ident, .seq identStart (.star identRest))] := rfl
  have listed : entry ∈ patterns.filter (·.1 == .ident) := List.mem_filter.mpr ⟨member, by simp [ident]⟩
  rw [only, List.mem_singleton] at listed
  rw [listed]

/-- An identifier has the form of one, also where it is spelled like a keyword. -/
theorem matches_of_next_ident {c : Char} {rest : List Char} (ident : (engine.next c rest).1 = .ident) :
    Matches (.seq identStart (.star identRest)) (c :: rest.take (engine.next c rest).2) := by
  rcases next_cases c rest with comment | unreadable | ⟨entry, member, longest, kind⟩
  · rw [ident] at comment
    cases comment
  · rw [ident] at unreadable
    cases unreadable
  · have matched := matches_after_iff.mp (matches_take_longest longest).2
    rcases kind with same | ⟨keyword, _⟩
    · rwa [eq_ident_pattern member (same.symm.trans ident)] at matched
    · obtain ⟨word, listed, named, shared⟩ := matches_ident_of_keyword member keyword matched
      rwa [eq_ident_pattern listed named] at shared

theorem matches_star_concat {inner : Pattern} {s : List Char} {d : Char} (matched : Matches (.star inner) s)
    (last : Matches inner [d]) : Matches (.star inner) (s ++ [d]) := by
  generalize whole : Pattern.star inner = p at matched
  induction matched with
  | starNil =>
    cases whole
    exact matches_star_cons_iff.mpr ⟨[], [], rfl, last, .starNil⟩
  | starCons head _ _ ih =>
    cases whole
    rw [List.append_assoc]
    exact .starCons head (ih rfl)
  | _ => cases whole

/-- What starts like an identifier goes on with one before it. -/
theorem matches_ident_concat {s more : List Char} {d : Char}
    (matched : Matches (.seq identStart (.star identRest)) s)
    (behind : Matches (.seq identStart (.star identRest)) (d :: more)) :
    Matches (.seq identStart (.star identRest)) (s ++ [d]) := by
  have letter : Matches identRest [d] := by
    obtain ⟨first, rest, text, start, _⟩ := matches_seq_iff.mp behind
    obtain ⟨e, accepted, rfl⟩ := matches_one_iff.mp start
    obtain ⟨rfl, _⟩ := List.cons.inj text
    refine .one ?_
    simp only [Bool.or_eq_true] at accepted ⊢
    exact accepted.imp_left Or.inl
  obtain ⟨first, rest, rfl, start, further⟩ := matches_seq_iff.mp matched
  rw [List.append_assoc]
  exact .seq start (matches_star_concat further letter)

/-- Right behind an identifier no other one starts. -/
theorem next_behind_ident {c d : Char} {rest more : List Char} (ident : (engine.next c rest).1 = .ident)
    (behind : rest.drop (engine.next c rest).2 = d :: more) : (engine.next d more).1 ≠ .ident := by
  intro again
  have whole : c :: rest.take (engine.next c rest).2 ++ rest.drop (engine.next c rest).2 = c :: rest := by
    rw [List.cons_append, List.take_append_drop]
  have matched := matches_of_next_ident ident
  -- The first identifier could have taken the next character too.
  have longer := matches_ident_concat matched (matches_of_next_ident again)
  have start : c :: rest.take (engine.next c rest).2 ++ [d] <+:
      c :: rest.take (engine.next c rest).2 ++ rest.drop (engine.next c rest).2 := by
    rw [behind]
    exact ⟨more, List.append_assoc ..⟩
  have listed : (Kind.ident, Pattern.seq identStart (.star identRest)) ∈ patterns :=
    mem_patterns_iff.mpr (Or.inr (by simp [variedPatterns]))
  have noSlash : (Pattern.seq identStart (.star identRest)).mayStart '/' = false := by decide +kernel
  have noComment : ¬ ['/', '*'] <+: c :: rest := by
    intro comment
    have first := mayStart_of_matches matched
    rw [← (List.cons_prefix_cons.mp comment).1, noSlash] at first
    cases first
  rw [← whole] at noComment
  have bound := ((takesLongest_engine.munch_next c rest).longest noComment _ listed _ start longer).1
  rw [List.length_append, List.length_singleton] at bound
  omega

/-- A token starts behind those before it, and right there only if there are none. -/
theorem start_of_mem_scanFrom {t : Token} {start skip : Nat} {cs : List Char}
    (member : t ∈ engine.scanFrom start skip cs) :
    start < t.start ∨
      start = t.start ∧ ∃ c rest, cs.drop skip = c :: rest ∧ t.kind = (engine.next c rest).1 := by
  induction cs generalizing start skip with
  | nil => simp [Engine.scanFrom] at member
  | cons c rest ih =>
    cases skip with
    | succ n => exact ih member
    | zero =>
      rw [Engine.scanFrom_zero_cons, List.mem_cons] at member
      rcases member with rfl | later
      · exact Or.inr ⟨rfl, c, rest, rfl, rfl⟩
      · have size : 0 < (String.ofList (c :: rest.take (engine.next c rest).2)).utf8ByteSize := by
          rw [Nat.pos_iff_ne_zero, ne_eq, String.utf8ByteSize_eq_zero_iff]
          simp
        rcases ih later with further | ⟨same, _⟩ <;> exact Or.inl (by omega)

/-- Between two identifiers of a text is something else. -/
theorem pairwise_idents (start skip : Nat) (cs : List Char) :
    (engine.scanFrom start skip cs).Pairwise fun t u =>
      t.kind = .ident → u.kind = .ident → t.stop < u.start := by
  induction cs generalizing start skip with
  | nil => exact .nil
  | cons c rest ih =>
    cases skip with
    | succ n => exact ih ..
    | zero =>
      rw [Engine.scanFrom_zero_cons]
      refine List.pairwise_cons.mpr ⟨fun u later ident ident' => ?_, ih ..⟩
      -- Only the token right behind could touch this one.
      rcases start_of_mem_scanFrom later with further | ⟨_, d, more, behind, kind⟩
      · exact further
      · exact absurd (kind.symm.trans ident') (next_behind_ident ident behind)

/-- No two identifiers of a text touch one place. -/
theorem ident_unique {text : String} {t u : Token} {offset : Nat} (member : t ∈ scan text)
    (member' : u ∈ scan text) (ident : t.kind = .ident) (ident' : u.kind = .ident)
    (here : t.start ≤ offset ∧ offset ≤ t.stop) (here' : u.start ≤ offset ∧ offset ≤ u.stop) : t = u := by
  let Touching (a b : Token) : Prop := a.kind = .ident ∧ a.start ≤ offset ∧ offset ≤ a.stop →
    b.kind = .ident ∧ b.start ≤ offset ∧ offset ≤ b.stop → a = b
  have order : (scan text).Pairwise Touching := by
    refine (pairwise_idents 0 0 text.toList).imp fun apart left right => ?_
    have := apart left.1 right.1
    omega
  have symmetric : Std.Symm Touching := ⟨fun a b same left right => (same right left).symm⟩
  exact order.forall_of_forall (fun _ _ _ _ => rfl) member member' ⟨ident, here⟩ ⟨ident', here'⟩

end Token

/-! A reference has one name -/

/-- The kind of a token that may be the name of a reference or its quoted path. -/
def Tree.nameKind? : Tree → Option Kind
  | .token kind _ => if Reference.isNameKind kind then some kind else none
  | .node .. => none

namespace Grammar

/-- How many tokens among some trees are names or quoted: none; at most one, which is a name; or any. -/
inductive Names where
  | none
  | single
  | any
  deriving DecidableEq

namespace Names

def append : Names → Names → Names
  | .none, d | d, .none => d
  | _, _ => .any

def join : Names → Names → Names
  | .none, .none => .none
  | .any, _ | _, .any => .any
  | _, _ => .single

def token : Option Place → Names
  | some (some kinds) =>
    if kinds.all (!Reference.isNameKind ·) then .none
    else if kinds.all fun kind => !Reference.isNameKind kind || kind == .ident then .single
    else .any
  | _ => .any

def Fits : Names → List Tree → Prop
  | .none, trees => trees.filterMap Tree.nameKind? = []
  | .single, trees => trees.filterMap Tree.nameKind? = [] ∨ trees.filterMap Tree.nameKind? = [.ident]
  | .any, _ => True

variable {d d' : Names} {left right trees : List Tree}

theorem Fits.append (before : d.Fits left) (behind : d'.Fits right) : (d.append d').Fits (left ++ right) := by
  cases d <;> cases d' <;> simp_all [Fits, Names.append, List.filterMap_append]

theorem Fits.join (either : d.Fits trees ∨ d'.Fits trees) : (d.join d').Fits trees := by
  rcases either with fits | fits
  · cases d <;> cases d' <;> first | exact fits | exact Or.inl fits | trivial
  · cases d <;> cases d' <;> first | exact fits | exact Or.inl fits | trivial

theorem fits_token {first : Option Place} {t : Token} (known : ∀ place ∈ first, place.admits t.kind = true) :
    (token first).Fits [State.leaf t] := by
  unfold token
  split
  · rename_i kinds
    have member : t.kind ∈ kinds := List.contains_iff_mem.mp (known _ rfl)
    split
    · rename_i others
      have other := List.all_eq_true.mp others _ member
      simp_all [Fits, State.leaf, Tree.nameKind?]
    · split
      · rename_i idents
        have ident := List.all_eq_true.mp idents _ member
        simp only [Fits, State.leaf, List.filterMap_cons, Tree.nameKind?, List.filterMap_nil]
        cases name : Reference.isNameKind t.kind <;> simp_all
      · trivial
  · trivial

end Names

/-- The only name in a reference, apart from what stands before its dot, is its own. -/
def NamedOnce (kind : Kind) (children : List Tree) : Prop :=
  kind.isUse = true → Names.single.Fits children

/-- The account of the names in each reference. -/
def names : Sketch Names where
  lenient := true
  nothing _ := .none
  bump first d := some (d.append (.token first))
  node kind d := if kind.isUse && d == .any then none else some .none
  append d d' := some (d.append d')
  join d d' := some (d.join d')
  start _ := .none
  adds
    | .operand | .typ | .typeName | .structType | .interfaceType | .literalValue => .none
    | _ => .any

theorem names_sound : names.Sound fun d trees => Tree.ShapedAll NamedOnce trees ∧ d.Fits trees where
  nothing _ := ⟨trivial, rfl⟩
  start _ := ⟨trivial, rfl⟩
  blank {d trees t} described trivia := by
    refine ⟨shapedAll_append described.1 (shapedAll_leaves [t]), ?_⟩
    have other : Reference.isNameKind t.kind = false := by
      cases kind : t.kind <;> first | rfl | rw [kind] at trivia; cases trivia
    have nothing : Names.none.Fits [State.leaf t] := by simp [Names.Fits, State.leaf, Tree.nameKind?, other]
    have fit := described.2.append nothing
    cases d <;> exact fit
  bump {d d' trees t first} described known next := by
    cases next
    exact ⟨shapedAll_append described.1 (shapedAll_leaves [t]), described.2.append (Names.fits_token known)⟩
  atEnd {d d' trees} described next := by
    cases next
    refine ⟨described.1, ?_⟩
    cases d <;> trivial
  node {d d' trees kind} described next := by
    simp only [names] at next
    split at next
    · cases next
    · rename_i few
      cases next
      refine ⟨⟨⟨fun use => ?_, described.1⟩, trivial⟩, rfl⟩
      rw [use, Bool.true_and, beq_iff_eq] at few
      cases d with
      | none => exact Or.inl described.2
      | single => exact described.2
      | any => exact absurd rfl few
  append {d d' d'' left right} before behind next := by
    cases next
    exact ⟨shapedAll_append before.1 behind.1, before.2.append behind.2⟩
  join {d d' d'' trees} joined described := by
    cases joined
    exact ⟨described.elim (·.1) (·.1), .join (described.imp (·.2) (·.2))⟩

theorem names_passes (rule : Rule) : names.account.passes rule = true :=
  Account.passes_all (by decide +kernel) (fun _ => ⟨rfl, rfl⟩) rule

end Grammar

theorem Parse.namedOnce (text : String) : (ofText text).tree.Shaped Grammar.NamedOnce :=
  ⟨fun use => absurd use Bool.false_ne_true,
    (Grammar.names_sound.ofTokens Grammar.names_passes (Or.inl rfl)).1⟩

theorem Node.nameKinds_trees (n : Node) :
    n.trees.filterMap Tree.nameKind? = (n.tokens.filter (Reference.isNameKind ·.kind)).map Leaf.kind := by
  rw [← map_tree_elements, tokens, List.filterMap_map]
  induction n.elements with
  | nil => rfl
  | cons e rest ih =>
    cases e with
    | node c => exact ih
    | leaf l =>
      have first : Tree.nameKind? (.token l.kind l.text) =
          if Reference.isNameKind l.kind then some l.kind else none := rfl
      cases name : Reference.isNameKind l.kind <;>
        simp_all [Element.tree, Element.leaf?]

/-- A name in a reference is the identifier of the reference. -/
theorem Node.identifier_of_token {n : Node} {l : Leaf} (once : Grammar.NamedOnce n.kind n.trees)
    (use : n.kind.isUse = true) (token : l ∈ n.tokens) (name : Reference.isNameKind l.kind = true) :
    l.kind = .ident ∧ n.identifier = some l := by
  have among : l ∈ n.tokens.filter (Reference.isNameKind ·.kind) := List.mem_filter.mpr ⟨token, name⟩
  have kinds := once use
  rw [Grammar.Names.Fits, nameKinds_trees] at kinds
  rcases kinds with nothing | one
  · rw [List.map_eq_nil_iff.mp nothing] at among
    cases among
  · obtain ⟨k, alone, ident⟩ := List.map_eq_singleton_iff.mp one
    rw [alone, List.mem_singleton] at among
    subst among
    refine ⟨ident, ?_⟩
    have idents : n.tokens.filter (·.kind == .ident) =
        (n.tokens.filter (Reference.isNameKind ·.kind)).filter (·.kind == .ident) := by
      rw [List.filter_filter]
      refine List.filter_congr fun k _ => ?_
      rw [Reference.isNameKind]
      cases k.kind == Kind.ident <;> rfl
    rw [identifier, Node.token, ← List.head?_filter, idents, alone]
    simp [ident]

namespace Reference

variable {ws : Workspace} {file : FileId} {offset : Nat} {r : Reference}

theorem isUse_of_referenceKind {kind : Kind} {use : ReferenceKind} (refers : kind.referenceKind = some use)
    (other : use ≠ .importPath) : kind.isUse = true := by
  unfold Kind.referenceKind at refers
  split at refers
  · rfl
  · rfl
  · exact absurd (Option.some.inj refers).symm other
  · cases refers

theorem nameLeaf_use (r : Reference) (use : r.kind ≠ .importPath) : r.nameLeaf = r.node.identifier := by
  unfold nameLeaf
  split
  · rename_i path
    exact absurd path use
  · rfl

theorem name?_use (use : r.kind ≠ .importPath) : r.name? = r.node.identifierText := by
  unfold name?
  split
  · rename_i path
    exact absurd path use
  · rfl

/-- A reference in an expression or a type is found by its name. -/
theorem nameLeaf_of_at? (found : at? ws file offset = some r) (use : r.kind ≠ .importPath) :
    ∃ f l, ws.file? file = some f ∧ l ∈ f.root.leaves ∧ r.nameLeaf = some l ∧ l.kind = .ident ∧
      l.start ≤ offset ∧ offset ≤ l.stop := by
  obtain ⟨f, atHand, further⟩ := Option.bind_eq_some_iff.mp found
  obtain ⟨l, first, isReference⟩ := Option.bind_eq_some_iff.mp further
  have touching := List.mem_of_find?_eq_some first
  have name := List.find?_some first
  obtain ⟨member, bounds⟩ := List.mem_filter.mp touching
  simp only [Bool.and_eq_true, decide_eq_true_eq] at bounds
  obtain ⟨_, node, refers⟩ := ofNode?_spec isReference
  obtain ⟨_, below, token⟩ := Node.mem_leaves.mp member
  obtain rfl := Node.parent_of_mem_tokens token
  have once := Parse.namedOnce f.text
  rw [← f.tree_root] at once
  obtain ⟨ident, own⟩ := Node.identifier_of_token (Node.shape_of_mem_descendants once below)
    (isUse_of_referenceKind refers use) token name
  exact ⟨f, l, atHand, member, by rw [nameLeaf_use r use, node, own], ident, bounds.1.2, bounds.2⟩

end Reference

end GoNav
