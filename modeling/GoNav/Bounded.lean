namespace GoNav

/-- How a search goes on which a bound is set, so that it comes to an end where it would not without one. -/
class Bounded (m : Type → Type) extends Monad m where
  /-- What becomes of a search that the bound cuts off, where `nothing` is what it gives if it finds
  nothing. -/
  cutOff {α : Type} (nothing : α) : m α

namespace Bounded

/-- A search that is cut off finds nothing. -/
instance : Bounded Id where
  cutOff nothing := nothing

/-- A search that is cut off gives no answer, so that an answer is always that of the search without a bound. -/
instance : Bounded Option where
  cutOff _ := none

variable {m : Type → Type} [Bounded m] {α β : Type}

/-- What a search finds, or else another one. -/
@[macro_inline]
def orElse (first second : m (Option α)) : m (Option α) := do
  match ← first with
  | some found => return some found
  | none => second

/-- Goes on with what a search finds. -/
def andThen (first : m (Option α)) (further : α → m (Option β)) : m (Option β) := do
  match ← first with
  | some found => further found
  | none => return none

/-- The lists for all elements of a list, one behind the other. -/
def concatM (f : α → m (List β)) : List α → m (List β)
  | [] => pure []
  | a :: rest => do
    let first ← f a
    let later ← concatM f rest
    return first ++ later

theorem orElse_id (first second : Option α) : orElse (m := Id) first second = first.or second := by
  cases first <;> rfl

theorem andThen_id (first : Option α) (further : α → Option β) :
    andThen (m := Id) first further = first.bind further := by
  cases first <;> rfl

theorem concatM_id (f : α → List β) (as : List α) : concatM (m := Id) f as = as.flatMap f := by
  induction as with
  | nil => rfl
  | cons a rest ih => exact congrArg (f a ++ ·) ih

theorem findSomeM?_id (f : α → Option β) (as : List α) :
    List.findSomeM? (m := Id) f as = as.findSome? f :=
  List.idRun_findSomeM? f as

end Bounded

end GoNav
