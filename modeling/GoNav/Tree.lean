import GoNav.Kind

namespace GoNav

/-- Concrete syntax. The leaves are the tokens of the text, none left out. -/
inductive Tree where
  | token (kind : Kind) (text : String)
  | node (kind : Kind) (children : List Tree)
  deriving Repr, Inhabited

namespace Tree

def kind : Tree → Kind
  | .token kind _ => kind
  | .node kind _ => kind

def children : Tree → List Tree
  | .token .. => []
  | .node _ children => children

mutual

/-- The kinds and texts of the tokens, from left to right. -/
def leaves : Tree → List (Kind × String)
  | .token kind text => [(kind, text)]
  | .node _ children => leavesOf children

def leavesOf : List Tree → List (Kind × String)
  | [] => []
  | t :: rest => t.leaves ++ leavesOf rest

end

mutual

/-- The number of bytes that a tree covers. -/
def bytes : Tree → Nat
  | .token _ text => text.utf8ByteSize
  | .node _ children => bytesOf children

def bytesOf : List Tree → Nat
  | [] => 0
  | t :: rest => t.bytes + bytesOf rest

end

/-- The text that a tree covers. -/
def text (t : Tree) : String :=
  String.join (t.leaves.map Prod.snd)

/-- A node or token met on the way through a tree: its depth, and the byte offset of its start. -/
structure Visit where
  depth : Nat
  start : Nat
  tree : Tree

mutual

/-- A tree with all nodes and tokens below it, each before its own parts. -/
def visits (depth start : Nat) : Tree → List Visit
  | .token kind text => [⟨depth, start, .token kind text⟩]
  | .node kind children => ⟨depth, start, .node kind children⟩ :: visitsOf (depth + 1) start children

def visitsOf (depth start : Nat) : List Tree → List Visit
  | [] => []
  | t :: rest => t.visits depth start ++ visitsOf depth (start + t.bytes) rest

end

end Tree

end GoNav
