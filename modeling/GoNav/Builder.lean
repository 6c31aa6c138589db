import GoNav.Tree

namespace GoNav

/-- A tree that is put together call by call: the finished elements that are in no finished node yet,
and the nodes that are open, innermost first, each with the number of elements before it. -/
structure Builder where
  opened : List (Kind × Nat)
  elements : List Tree
  deriving Repr

namespace Builder

def empty : Builder :=
  ⟨[], []⟩

/-- Adds a token. -/
def token (b : Builder) (kind : Kind) (text : String) : Builder :=
  { b with elements := b.elements ++ [.token kind text] }

/-- Opens a node. -/
def startNode (b : Builder) (kind : Kind) : Builder :=
  { b with opened := (kind, b.elements.length) :: b.opened }

/-- The present place, from which a node may be opened later. -/
def checkpoint (b : Builder) : Nat :=
  b.elements.length

/-- Whether a node may be opened from a checkpoint: what stood before it is still there, and it was
taken in the node that is open now. -/
def isValid (b : Builder) (checkpoint : Nat) : Bool :=
  checkpoint ≤ b.elements.length && b.opened.head?.all (·.2 ≤ checkpoint)

/-- Opens a node that also holds all that was added since a checkpoint. It is a fault to do so from a
checkpoint that is no longer valid. -/
def startNodeAt (b : Builder) (checkpoint : Nat) (kind : Kind) : Option Builder :=
  if b.isValid checkpoint then some { b with opened := (kind, checkpoint) :: b.opened } else none

/-- Closes the innermost open node. It is a fault to do so where none is open. -/
def finishNode (b : Builder) : Option Builder :=
  match b.opened with
  | [] => none
  | (kind, first) :: rest =>
    some ⟨rest, b.elements.take first ++ [.node kind (b.elements.drop first)]⟩

/-- The whole tree. It is a fault to ask for it while a node is open, or where there is not exactly one
node at the top. -/
def finish (b : Builder) : Option Tree :=
  match b.opened, b.elements with
  | [], [.node kind children] => some (.node kind children)
  | _, _ => none

end Builder

end GoNav
