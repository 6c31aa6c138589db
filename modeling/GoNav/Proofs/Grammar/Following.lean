import GoNav.Proofs.Grammar.Building

namespace GoNav

mutual

/-- Each node of a tree has a shape, which may depend on its kind and on the tokens that stand behind it. -/
def Tree.Followed (shape : Kind → List Tree → List (Kind × String) → Prop) (behind : List (Kind × String)) :
    Tree → Prop
  | .token .. => True
  | .node kind children => shape kind children behind ∧ Tree.FollowedAll shape behind children

def Tree.FollowedAll (shape : Kind → List Tree → List (Kind × String) → Prop) (behind : List (Kind × String)) :
    List Tree → Prop
  | [] => True
  | t :: rest => t.Followed shape (Tree.leavesOf rest ++ behind) ∧ Tree.FollowedAll shape behind rest

end

section

variable {shape : Kind → List Tree → List (Kind × String) → Prop} {behind : List (Kind × String)}

theorem Tree.followedAll_append {left right : List Tree} : Tree.FollowedAll shape behind (left ++ right) ↔
    Tree.FollowedAll shape (Tree.leavesOf right ++ behind) left ∧ Tree.FollowedAll shape behind right := by
  induction left with
  | nil => simp [FollowedAll]
  | cons t rest ih => simp only [List.cons_append, FollowedAll, ih, leavesOf_append, List.append_assoc, and_assoc]

theorem Tree.followedAll_leaves (tokens : List Token) :
    Tree.FollowedAll shape behind (tokens.map Grammar.State.leaf) := by
  induction tokens with
  | nil => trivial
  | cons t rest ih => exact ⟨trivial, ih⟩

namespace Node

theorem followed_of_mem_elementsIn {parent c : Node} {index start : Nat} {trees : List Tree}
    (followed : Tree.FollowedAll shape behind trees) (member : .node c ∈ elementsIn parent index start trees) :
    ∃ left right, (elementsIn parent index start trees).flatMap Element.leaves = left ++ c.leaves ++ right ∧
      (Tree.node c.kind c.trees).Followed shape (right.map Leaf.written ++ behind) := by
  induction trees generalizing index start with
  | nil => cases member
  | cons t rest ih =>
    rcases List.mem_cons.mp member with first | later
    · cases t with
      | token kind text => cases first
      | node kind children =>
        cases first
        refine ⟨[], (elementsIn parent (index + 1) (start + (Tree.node kind children).bytes) rest).flatMap
          Element.leaves, rfl, ?_⟩
        rw [written_elementsIn fun c _ => c.leaves_written]
        exact followed.1
    · obtain ⟨left, right, split, shaped⟩ := ih followed.2 later
      obtain ⟨first, elements⟩ : ∃ first, elementsIn parent index start (t :: rest) =
        first :: elementsIn parent (index + 1) (start + t.bytes) rest := ⟨_, rfl⟩
      refine ⟨first.leaves ++ left, right, ?_, shaped⟩
      rw [elements, List.flatMap_cons, split]
      simp only [List.append_assoc]

/-- The tokens behind a node below another are those behind it in the latter, and what stands behind that. -/
theorem exists_followed {n m : Node} (followed : (Tree.node n.kind n.trees).Followed shape behind)
    (member : m ∈ n.descendants) :
    ∃ left right, n.leaves = left ++ m.leaves ++ right ∧
      shape m.kind m.trees (right.map Leaf.written ++ behind) := by
  induction n using children_induction generalizing behind with
  | step n ih =>
    rcases mem_descendants.mp member with rfl | ⟨c, child, below⟩
    · exact ⟨[], [], by simp, followed.1⟩
    · obtain ⟨left, right, outer, followed⟩ := followed_of_mem_elementsIn followed.2 (mem_children.mp child)
      obtain ⟨left', right', inner, shaped⟩ := ih c child followed below
      refine ⟨left ++ left', right' ++ right, ?_, by rwa [List.map_append, List.append_assoc]⟩
      rw [leaves_eq, elements, outer, inner]
      simp only [List.append_assoc]

end Node

namespace Grammar

/-- What is built has the shape, with the tokens that are not yet read behind it. -/
def State.Followed (shape : Kind → List Tree → List (Kind × String) → Prop) (s : State) : Prop :=
  Tree.FollowedAll shape (s.unread.map Token.written) s.built

theorem State.Followed.bump {s : State} (followed : s.Followed shape) : s.bump.Followed shape := by
  refine Tree.followedAll_append.mpr ⟨?_, Tree.followedAll_leaves _⟩
  have unread : s.upcoming ++ s.bump.unread = s.unread := s.upcoming_append_unread_advance
  rw [leavesOf_leaf, ← List.map_append, unread]
  exact followed

theorem State.Followed.flush {s : State} (followed : s.Followed shape) : s.flush.Followed shape := by
  refine Tree.followedAll_append.mpr ⟨?_, Tree.followedAll_leaves _⟩
  have unread : s.pending ++ s.flush.unread = s.unread := s.pending_append_unread_skip
  rw [leavesOf_leaf, ← List.map_append, unread]
  exact followed

/-- Behind an inside, what was built before has the tokens of the inside behind it. -/
theorem State.Followed.resume {s t : State} {kind : Option Kind} (followed : s.Followed shape)
    (reads : Reads s.inside t) (inner : t.Followed shape)
    (own : ∀ k ∈ kind, shape k t.built (t.unread.map Token.written)) : (s.resume kind t).Followed shape := by
  have contents : Tree.leavesOf t.built ++ t.unread.map Token.written = s.flush.unread.map Token.written :=
    reads.contents
  refine Tree.followedAll_append.mpr ⟨?_, ?_⟩
  · have leaves : Tree.leavesOf (gather kind t.built) = Tree.leavesOf t.built := by
      cases kind <;> simp [gather, Tree.leavesOf, Tree.leaves]
    rw [leaves]
    show Tree.FollowedAll shape (_ ++ t.unread.map Token.written) _
    rw [contents]
    exact followed.flush
  · cases kind with
    | none => exact inner
    | some kind => exact ⟨⟨own kind rfl, inner⟩, trivial⟩

/-- An action that builds only nodes of kinds that may have any children before anything keeps the shape, if the
rules that it follows do. -/
theorem Does.followed {allowed : Kind → Bool} {Inv : State → Prop} {n : Nat} {a : Action} {s t : State} {b : Bool}
    (invariant : Invariant Inv) (free : ∀ kind, allowed kind = true → ∀ children behind, shape kind children behind)
    (calls : ∀ {rule s b t}, Does n (.call rule) s b t → Inv s → s.Followed shape → t.Followed shape)
    (done : Does n a s b t) (builds : a.buildsOnly allowed = true) (begun : Inv s)
    (kept : s.Followed shape) : t.Followed shape := by
  induction done with
  | answer | ask | fail => exact kept
  | seq first _ ihFirst ihSecond =>
    obtain ⟨left, right⟩ := Bool.and_eq_true_iff.mp builds
    exact ihSecond calls right (invariant.does first begun) (ihFirst calls left begun kept)
  | yes asked _ ihAsked ihWay =>
    simp only [Action.buildsOnly, Bool.and_eq_true] at builds
    exact ihWay calls builds.1.2 (invariant.does asked begun) (ihAsked calls builds.1.1 begun kept)
  | no asked _ ihAsked ihWay =>
    simp only [Action.buildsOnly, Bool.and_eq_true] at builds
    exact ihWay calls builds.2 (invariant.does asked begun) (ihAsked calls builds.1.1 begun kept)
  | bump => exact kept.bump
  | node kind inner ih =>
    obtain ⟨own, within⟩ := Bool.and_eq_true_iff.mp builds
    refine kept.resume (reads_stable.does inner) (ih calls within (invariant.inside begun) trivial) fun k same => ?_
    cases same
    exact free kind own ..
  | marked inner ih =>
    exact kept.resume (reads_stable.does inner) (ih calls builds (invariant.inside begun) trivial)
      fun _ none => absurd none (Option.not_mem_none _)
  | wrap kind _ ih =>
    obtain ⟨own, inner⟩ := Bool.and_eq_true_iff.mp builds
    exact ⟨⟨free kind own .., ih calls inner begun kept⟩, trivial⟩
  | header within _ ih => exact ih calls builds (invariant.header within begun) kept
  | moves _ ih => exact ih calls builds begun kept
  | again first _ ihFirst ihRest =>
    exact ihRest calls builds (invariant.does first begun) (ihFirst calls builds begun kept)
  | stop _ ih => exact ih calls builds begun kept
  | call body _ => exact calls (.call body) begun kept

end Grammar

end

end GoNav
