import GoNav.Tree

namespace GoNav

/-- A node of a syntax tree together with its place: where it starts, which child of its parent it is,
and that parent. -/
structure Node where
  kind : Kind
  start : Nat
  trees : List Tree
  index : Nat
  parent : Option Node

/-- A token of a syntax tree together with its place. -/
structure Leaf where
  kind : Kind
  text : String
  start : Nat
  parent : Node

/-- A child of a node. -/
inductive Element where
  | node (node : Node)
  | leaf (leaf : Leaf)

namespace Leaf

/-- The byte offset just behind the token. -/
def stop (l : Leaf) : Nat :=
  l.start + l.text.utf8ByteSize

end Leaf

namespace Element

def kind : Element → Kind
  | .node n => n.kind
  | .leaf l => l.kind

def start : Element → Nat
  | .node n => n.start
  | .leaf l => l.start

def node? : Element → Option Node
  | .node n => some n
  | .leaf _ => none

def leaf? : Element → Option Leaf
  | .node _ => none
  | .leaf l => some l

end Element

namespace Node

/-- The node at the top of a tree. -/
def root (t : Tree) : Node :=
  ⟨t.kind, 0, t.children, 0, none⟩

/-- The byte offset just behind the node. -/
def stop (n : Node) : Nat :=
  n.start + Tree.bytesOf n.trees

/-- The text that a node covers, blanks and comments inside included. -/
def text (n : Node) : String :=
  String.join ((Tree.leavesOf n.trees).map Prod.snd)

/-- The children in a list of trees that starts at the given place under the parent. -/
def elementsIn (parent : Node) (index start : Nat) : List Tree → List Element
  | [] => []
  | t :: rest =>
    let here := match t with
      | .token kind text => Element.leaf ⟨kind, text, start, parent⟩
      | .node kind trees => Element.node ⟨kind, start, trees, index, some parent⟩
    here :: elementsIn parent (index + 1) (start + t.bytes) rest

/-- The children of a node, tokens included. -/
def elements (n : Node) : List Element :=
  elementsIn n 0 n.start n.trees

/-- The children of a node that are nodes. -/
def children (n : Node) : List Node :=
  n.elements.filterMap Element.node?

/-- The children of a node that are tokens. -/
def tokens (n : Node) : List Leaf :=
  n.elements.filterMap Element.leaf?

/-- The nodes around a node, innermost first. -/
def ancestors : Node → List Node
  | ⟨_, _, _, _, none⟩ => []
  | ⟨_, _, _, _, some p⟩ => p :: p.ancestors

/-- The place of a node in its tree: which child it is of its parent, and so on outward. -/
def path (n : Node) : List Nat :=
  n.index :: n.ancestors.map Node.index

/-- Two nodes of one tree are the same when they stand at the same place. -/
instance : BEq Node where
  beq a b := a.path == b.path

mutual

/-- A tree and all that is below it, each thing before its own parts. -/
def preorderTree (parent : Node) (index start : Nat) : Tree → List Element
  | .token kind text => [.leaf ⟨kind, text, start, parent⟩]
  | .node kind trees =>
    let here : Node := ⟨kind, start, trees, index, some parent⟩
    .node here :: preorderTrees here 0 start trees

def preorderTrees (parent : Node) (index start : Nat) : List Tree → List Element
  | [] => []
  | t :: rest => preorderTree parent index start t ++ preorderTrees parent (index + 1) (start + t.bytes) rest

end

/-- A node and all nodes and tokens below it, each before its own parts. -/
def preorder (n : Node) : List Element :=
  .node n :: preorderTrees n 0 n.start n.trees

/-- A node and all nodes below it, each before its own parts. -/
def descendants (n : Node) : List Node :=
  n.preorder.filterMap Element.node?

/-- The tokens below a node that hold or touch a byte offset: two of them where it lies between two. -/
def leavesAt (n : Node) (offset : Nat) : List Leaf :=
  (n.preorder.filterMap Element.leaf?).filter fun l =>
    l.start < l.stop && l.start ≤ offset && offset ≤ l.stop

/-- The first child of a kind that satisfies `p`. -/
def childWhere (n : Node) (p : Kind → Bool) : Option Node :=
  n.children.find? (p ·.kind)

/-- The children of a kind that satisfies `p`. -/
def childrenWhere (n : Node) (p : Kind → Bool) : List Node :=
  n.children.filter (p ·.kind)

def child (n : Node) (kind : Kind) : Option Node :=
  n.childWhere (· == kind)

def childrenOf (n : Node) (kind : Kind) : List Node :=
  n.childrenWhere (· == kind)

/-- The first child that is a token of the given kind. -/
def token (n : Node) (kind : Kind) : Option Leaf :=
  n.tokens.find? (·.kind == kind)

end Node

end GoNav
