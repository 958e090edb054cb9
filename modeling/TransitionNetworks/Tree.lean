import TransitionNetworks.Network

/-!
# Parse trees

A parse tree has a root, which is a rule, and a list of the other nodes in the order in which they
were attached: a leaf when its token was consumed, a rule when it was exited, hence after the nodes
below it. Nodes refer to each other by their places in this list, their ids.
-/

namespace TransitionNetworks

/-- A token of the input, as a leaf. -/
structure Leaf where
  /-- The place of the token in the input. -/
  index : Nat
  /-- The token. -/
  token : Token
  deriving DecidableEq

/-- The part of the input that a rule went through. -/
structure Span where
  /-- Where the rule was entered. -/
  start : Nat
  /-- Where the rule was exited. -/
  stop : Nat
  deriving DecidableEq

/-- A rule gone through, with what happened inside. -/
structure Branch where
  /-- The rule. -/
  rule : Nat
  /-- The name of the rule. -/
  name : String
  /-- What the rule went through. -/
  span : Span
  /-- The ids of the nodes directly below, from left to right. -/
  children : Array Nat
  deriving DecidableEq

/-- A node below the root. -/
inductive Node where
  /-- A rule. -/
  | branch (branch : Branch)
  /-- A token. -/
  | leaf (leaf : Leaf)
  deriving DecidableEq

/-- The leaf that a node is. -/
def Node.leaf? : Node → Option Leaf
  | branch _ => none
  | leaf tip => some tip

/-- A parse tree. -/
structure ParseTree where
  /-- The root. -/
  root : Branch
  /-- The nodes below the root, each at the place that is its id. -/
  nodes : Array Node
  deriving DecidableEq

namespace ParseTree

/-- The node with an id. -/
def node? (tree : ParseTree) (id : Nat) : Option Node := tree.nodes[id]?

/-- How many nodes have ids. -/
def size (tree : ParseTree) : Nat := tree.nodes.size

/-- Whether no node has an id. -/
def isEmpty (tree : ParseTree) : Bool := tree.nodes.isEmpty

/-- The child number `n` of a branch, looked up in a tree. -/
def child? (tree : ParseTree) (branch : Branch) (n : Nat) : Option Node :=
  branch.children[n]?.bind tree.node?

/-- The children of a branch, looked up in a tree. -/
def children (tree : ParseTree) (branch : Branch) : List Node :=
  branch.children.toList.filterMap tree.node?

end ParseTree

end TransitionNetworks
