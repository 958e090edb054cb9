import TransitionNetworks.Tree

/-!
# Going through a tree

The leaves of a tree are found from left to right without recursion: the ids of the nodes still to
be gone through wait in a list, and a rule puts its children in front of those that wait. A tree as
deep as its input is long takes no more room than that list.
-/

namespace TransitionNetworks

/-- A tree that is being gone through. -/
structure Traversal where
  /-- The leaves found so far, from left to right. -/
  found : Array Leaf
  /-- The ids of the nodes that wait, the next one first. -/
  waiting : List Nat
  deriving DecidableEq

namespace Traversal

/-- Go through the next node, if one waits. An id without a node is passed over. -/
def turn (nodes : Array Node) : Traversal → Traversal
  | ⟨found, []⟩ => ⟨found, []⟩
  | ⟨found, id :: waiting⟩ =>
    match nodes[id]? with
    | some (.leaf tip) => ⟨found.push tip, waiting⟩
    | some (.branch top) => ⟨found, top.children.toList ++ waiting⟩
    | none => ⟨found, waiting⟩

/-- Take a number of turns. -/
def turns (nodes : Array Node) : Nat → Traversal → Traversal
  | 0, traversal => traversal
  | count + 1, traversal => turns nodes count (traversal.turn nodes)

/-- Turns add up. -/
theorem turns_add (nodes : Array Node) (first second : Nat) (traversal : Traversal) :
    traversal.turns nodes (first + second) = (traversal.turns nodes first).turns nodes second := by
  induction first generalizing traversal with
  | zero => rw [Nat.zero_add, turns]
  | succ first ih => rw [Nat.succ_add, turns, turns, ih]

end Traversal

/-- Begin to go through a tree: the children of the root wait. -/
def ParseTree.traversal (tree : ParseTree) : Traversal := ⟨#[], tree.root.children.toList⟩

end TransitionNetworks
