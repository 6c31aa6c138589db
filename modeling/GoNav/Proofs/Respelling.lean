import GoNav.Proofs.NameTokens
import GoNav.Proofs.Offsets
import GoNav.Proofs.TwinScopes

namespace GoNav

/-! Files whose blanks and comments are the same -/

namespace Token

/-- Tokens of one kind, which are written alike if they are blanks or comments. -/
def Alike (t u : Token) : Prop :=
  t.kind = u.kind ∧ (t.kind.isTrivia = true → t.text = u.text)

theorem Alike.hasNewline {t u : Token} (alike : t.Alike u) : t.hasNewline = u.hasNewline := by
  rw [Token.hasNewline, Token.hasNewline, ← alike.1]
  cases blank : t.kind.isTrivia with
  | false => rfl
  | true => rw [alike.2 blank]

theorem newlines_group {a b lead lead' : List Token} (same : List.Forall₂ Alike a b)
    (leads : lead.any Token.hasNewline = lead'.any Token.hasNewline) :
    (Grammar.Input.group lead a).lexemes.map Grammar.Lexeme.afterNewline =
        (Grammar.Input.group lead' b).lexemes.map Grammar.Lexeme.afterNewline ∧
      (Grammar.Input.group lead a).trailing.any Token.hasNewline =
        (Grammar.Input.group lead' b).trailing.any Token.hasNewline := by
  induction same generalizing lead lead' with
  | nil => exact ⟨rfl, leads⟩
  | @cons t u _ _ alike _ ih =>
    rw [Grammar.Input.group, Grammar.Input.group, ← alike.1]
    split
    · refine ih ?_
      simp only [List.any_append, List.any_cons, List.any_nil, leads, alike.hasNewline]
    · obtain ⟨between, atEnd⟩ := @ih [] [] rfl
      exact ⟨congrArg₂ List.cons leads between, atEnd⟩

theorem sameLayout_of_alike {a b : List Token} (same : List.Forall₂ Alike a b) : SameLayout a b := by
  obtain ⟨between, atEnd⟩ := @newlines_group _ _ [] [] same rfl
  refine ⟨?_, ?_, atEnd⟩
  · have kinds : List.Forall₂ Alike (significant a) (significant b) :=
      List.rel_filter (fun t u alike => by simp only [alike.1]) same
    exact map_eq_of_forall₂ kinds fun _ _ alike => alike.1
  · rw [List.map_tail, List.map_tail]
    exact congrArg List.tail between

end Token

/-- Such files have one outline. -/
theorem Parse.outlineOf_eq {a b : List Token} (same : List.Forall₂ Token.Alike a b) :
    Tree.outlineOf (finalState a).flush.built = Tree.outlineOf (finalState b).flush.built := by
  have layout := Token.sameLayout_of_alike same
  obtain ⟨_, _, first⟩ := does_finalState a
  obtain ⟨_, _, second⟩ := does_finalState b
  have start : Grammar.InStep a b 0 (.ofTokens a) (.ofTokens b) :=
    ⟨.ofTokens a, .ofTokens b, rfl, rfl, ⟨[], rfl, rfl⟩, rfl⟩
  have sees : (Grammar.Action.call .sourceFile).looksBackBehind false = true := rfl
  obtain ⟨_, k, _, _, final⟩ := first.inStep layout second start sees (fun known => by cases known)
  rw [Grammar.outlineOf_flush final.left.tidy, Grammar.outlineOf_flush final.right.tidy, final.built]

namespace SourceFile

theorem isFile (f : SourceFile) : f.root.IsFile :=
  ⟨rfl, f.tree_root ▸ Parse.quotesPath f.text⟩

theorem twins_self (f : SourceFile) : f.root.Twins Leaf.Agrees f.root :=
  .root f.isFile f.isFile (Node.matches_refl (fun _ _ => rfl) _)

theorem package_ofText (path : Path) (text : String) :
    (ofText path text).package = (ofText path text).root.packageName := by
  rw [ofText, root]

theorem root_eq (f : SourceFile) : f.root.kind = .sourceFile ∧
    f.root.trees = (Parse.finalState (Token.scan f.text)).flush.built := by
  have tree := f.tree_root
  rw [Parse.ofText, Parse.ofTokens_tree] at tree
  exact Tree.node.inj tree

end SourceFile

/-! One name spelled in another way -/

/-- Of two tokens in the same place of two files, the second is written like the first, or that is the given one
and the second is the label in its place. -/
def Leaf.Respelled (l : Leaf) (label : String) (k k' : Leaf) : Prop :=
  (k = l ∧ k'.text = label ∧ k'.start = l.start) ∨ (k ≠ l ∧ k'.text = k.text)

/-- The second file has the tokens of the first, but for an identifier that is spelled as the label is. -/
structure SourceFile.Respelling (f g : SourceFile) (t : Token) (label : String) : Prop where
  ident : t.kind = .ident
  tokens : ∃ head tail, Token.scan f.text = head ++ t :: tail ∧
    (Token.scan g.text).map Token.written = head.map Token.written ++ (.ident, label) :: tail.map Token.written

namespace SourceFile.Respelling

variable {f g : SourceFile} {t : Token} {label : String} (respelling : f.Respelling g t label)
include respelling

theorem alike : List.Forall₂ Token.Alike (Token.scan f.text) (Token.scan g.text) := by
  obtain ⟨head, tail, tokens, others⟩ := respelling.tokens
  obtain ⟨head', rest, split, left, right⟩ := List.map_eq_append_iff.mp others
  obtain ⟨u, tail', rfl, same, behind⟩ := List.map_eq_cons_iff.mp right
  have equal (a b : Token) (written : a.written = b.written) : a.Alike b :=
    ⟨congrArg Prod.fst written, fun _ => congrArg Prod.snd written⟩
  have ident : u.kind = .ident := congrArg Prod.fst same
  rw [tokens, split]
  refine List.rel_append ((forall₂_of_map_eq left.symm).imp equal)
    (.cons ⟨respelling.ident.trans ident.symm, fun blank => ?_⟩ ((forall₂_of_map_eq behind.symm).imp equal))
  rw [respelling.ident] at blank
  cases blank

/-- The trees of the two files have their tokens in pairs, of which one is the identifier and the label. -/
theorem leaves {l : Leaf} (member : l ∈ f.root.leaves) (here : l.start = t.start) :
    List.Forall₂ (fun k k' => k.kind = k'.kind ∧ l.Respelled label k k') f.root.leaves g.root.leaves := by
  obtain ⟨head, tail, tokens, others⟩ := respelling.tokens
  have written := f.leaves_written
  have written' := g.leaves_written
  rw [tokens, List.map_append, List.map_cons] at written
  rw [others] at written'
  -- The texts tell which token of each tree is the one; the texts before it tell where it stands.
  obtain ⟨before, rest, split, left, right⟩ := List.map_eq_append_iff.mp written
  obtain ⟨k, behind, rfl, same, after⟩ := List.map_eq_cons_iff.mp right
  obtain ⟨before', rest', split', left', right'⟩ := List.map_eq_append_iff.mp written'
  obtain ⟨k', behind', rfl, same', after'⟩ := List.map_eq_cons_iff.mp right'
  have place : t.start = k.start := by
    rw [(Token.Engine.scanFrom_split tokens).1, ← bytesIn_written, ← left, Node.start_of_leaves split]
    rfl
  have place' : k'.start = k.start := by
    rw [Node.start_of_leaves split, Node.start_of_leaves split', left, left']
    rfl
  have found : k ∈ f.root.leaves := by simp [split]
  obtain rfl : k = l :=
    List.inj_on_of_nodup_map f.nodup_starts found member (place.symm.trans here.symm)
  have elsewhere {ks ks' : List Leaf} (equal : ks.map Leaf.written = ks'.map Leaf.written)
      (apart : ∀ j ∈ ks, j ≠ k) :
      List.Forall₂ (fun j j' => j.kind = j'.kind ∧ k.Respelled label j j') ks ks' := by
    refine ((List.forall₂_and_left _ _).mpr ⟨apart, forall₂_of_map_eq equal⟩).imp fun j j' related => ?_
    exact ⟨congrArg Prod.fst related.2, Or.inr ⟨related.1, (congrArg Prod.snd related.2).symm⟩⟩
  have ident : k.kind = k'.kind :=
    (congrArg Prod.fst same).trans (respelling.ident.trans (congrArg Prod.fst same').symm)
  have distinct := f.nodup_starts.of_map
  rw [split, List.nodup_middle, List.nodup_cons, List.mem_append, not_or] at distinct
  rw [split, split']
  refine List.rel_append (elsewhere (left.trans left'.symm) ?_)
    (.cons ⟨ident, Or.inl ⟨rfl, congrArg Prod.snd same', place'⟩⟩ (elsewhere (after.trans after'.symm) ?_))
  · exact fun j earlier same => distinct.1.1 (same ▸ earlier)
  · exact fun j later same => distinct.1.2 (same ▸ later)

/-- The roots of the two files are twins. -/
theorem twins {l : Leaf} (member : l ∈ f.root.leaves) (here : l.start = t.start) :
    f.root.Twins (l.Respelled label) g.root := by
  have words : List.Forall₂ (fun k k' => k.kind = k'.kind ∧ l.Respelled label k k') f.root.words g.root.words :=
    List.rel_filter (fun _ _ same => by simp only [same.1]) (respelling.leaves member here)
  refine .root f.isFile g.isFile ⟨f.root_eq.1.trans g.root_eq.1.symm, ?_, words.imp fun _ _ same => same.2⟩
  rw [f.root_eq.2, g.root_eq.2]
  exact Parse.outlineOf_eq respelling.alike

end SourceFile.Respelling

theorem Leaf.Respelled.agrees {l k k' : Leaf} {label : String} (use : l.parent.kind.isUse = true)
    (related : l.Respelled label k k') : k.Agrees k' := by
  intro plain
  rcases related with ⟨rfl, _⟩ | ⟨_, same⟩
  · cases use.symm.trans plain
  · exact same

namespace Node.Twins

theorem imp {R S : Leaf → Leaf → Prop} (weaker : ∀ l l', R l l' → S l l') {n m : Node} (twins : n.Twins R m) :
    n.Twins S m := by
  induction twins with
  | root file file' same => exact .root file file' (same.imp weaker)
  | child _ left right ih => exact .child ih left right

theorem packageName_eq {r s : Node} (twins : r.Twins Leaf.Agrees s) : r.packageName = s.packageName := by
  have clauses := twins.childWhere (· == .packageClause)
  rw [packageName, packageName, Node.child, Node.child]
  generalize r.childWhere (· == .packageClause) = first at clauses ⊢
  generalize s.childWhere (· == .packageClause) = second at clauses ⊢
  cases clauses with
  | none => rfl
  | some same =>
    refine same.1.tokenText_eq ?_ rfl
    rw [eq_of_beq same.2]
    rfl

/-- The identifier of a node is spelled as the label is in the twin of the node. -/
theorem identifier_respelled {n m : Node} {l : Leaf} {label : String} (twins : n.Twins (l.Respelled label) m)
    (named : n.identifier = some l) :
    ∃ l', m.identifier = some l' ∧ l'.text = label ∧ l'.start = l.start := by
  have names : Option.Rel _ n.identifier m.identifier := twins.token rfl
  rw [named] at names
  generalize m.identifier = second at names ⊢
  cases names with
  | some same =>
    obtain ⟨_, spelled⟩ | ⟨other, _⟩ := same.1.1
    · exact ⟨_, rfl, spelled⟩
    · exact absurd rfl other

end Node.Twins

end GoNav
