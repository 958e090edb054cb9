import TransitionNetworks.Document
import TransitionNetworks.Tree

/-!
# The outline of a parse tree

The outline of a tree has the nodes below a rule inside it, in place of their ids. It is unfolded
from the list of nodes in one pass: the nodes below a rule stand in front of it, so their outlines
are there when the rule is reached. From the outline are read off the nodes in preorder, the leaves
from left to right, and the text of the tree.
-/

namespace TransitionNetworks

/-- A parse tree with every node inside the one above it. -/
inductive Outline where
  /-- A token. -/
  | leaf (leaf : Leaf)
  /-- A rule with the nodes below it, from left to right. -/
  | branch (branch : Branch) (children : List Outline)

namespace Outline

mutual

/-- The nodes of an outline in preorder, in front of other nodes. -/
def preorderOnto (rest : List Node) : Outline → List Node
  | leaf tip => .leaf tip :: rest
  | branch top children => .branch top :: preorderAllOnto rest children

/-- The nodes of consecutive outlines in preorder, in front of other nodes. -/
def preorderAllOnto (rest : List Node) : List Outline → List Node
  | [] => rest
  | outline :: outlines => outline.preorderOnto (preorderAllOnto rest outlines)

end

/-- The nodes of an outline in preorder. -/
def preorder (outline : Outline) : List Node := outline.preorderOnto []

/-- The leaves of an outline from left to right. -/
def leaves (outline : Outline) : List Leaf := outline.preorder.filterMap Node.leaf?

/-- The text of a leaf: the place of the token and the token. -/
def leafText (leaf : Leaf) : String := "#" ++ Nat.repr leaf.index ++ ":" ++ leaf.token.text

/-- The head of a rule's entry: its name and what it went through. -/
def branchHeader (branch : Branch) : String :=
  branch.name ++ "[" ++ Nat.repr branch.span.start ++ ".." ++ Nat.repr branch.span.stop ++ ")"

/-- The entry of a rule, with the entries of what is below it between braces. -/
def branchDocument (branch : Branch) : List Document → Document
  | [] => .text (branchHeader branch)
  | first :: others =>
    .group (.text (branchHeader branch) ++
      (.text " \x7b" ++
        (.nested 2 (.line ++ .joined .line (first :: others)) ++ (.line ++ .text "\x7d"))))

mutual

/-- The document of an outline. -/
def document : Outline → Document
  | leaf tip => .text (leafText tip)
  | branch top children => branchDocument top (documents children)

/-- The documents of consecutive outlines. -/
def documents : List Outline → List Document
  | [] => []
  | outline :: outlines => outline.document :: documents outlines

end

end Outline

/-- The outline of a node, given the outlines of the nodes attached before it. -/
def Node.outline (earlier : Array Outline) : Node → Outline
  | leaf tip => .leaf tip
  | branch top => .branch top (top.children.toList.filterMap fun id => earlier[id]?)

namespace ParseTree

/-- The outlines of the nodes, each at the place that is its node's id. -/
def outlines (tree : ParseTree) : Array Outline :=
  tree.nodes.foldl (fun earlier node => earlier.push (node.outline earlier)) #[]

/-- The outline of a tree. -/
def outline (tree : ParseTree) : Outline := (Node.branch tree.root).outline tree.outlines

/-- The nodes of a tree in preorder, the root first. -/
def preorder (tree : ParseTree) : List Node := tree.outline.preorder

/-- The leaves of a tree from left to right. -/
def leaves (tree : ParseTree) : List Leaf := tree.outline.leaves

/-- The tokens of a tree from left to right. -/
def tokens (tree : ParseTree) : List Token := tree.leaves.map Leaf.token

/-- The text of a tree on a page of a given width. -/
def text (tree : ParseTree) (width : Nat) : String := tree.outline.document.print width

end ParseTree

end TransitionNetworks
