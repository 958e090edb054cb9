import TransitionNetworks.Tree.Outline

/-!
# Typesetting a tree

The document of a tree is put together without recursion. The branches around the node that is next
wait in a list, each with the documents of those of its children that are done. A branch whose
children are all done is put together with its braces, and its document goes to the branch around
it; that of the root is the document of the tree.
-/

namespace TransitionNetworks

/-- A branch that is being typeset. -/
structure OpenEntry where
  /-- The branch. -/
  branch : Branch
  /-- How many of its children are gone through. -/
  next : Nat
  /-- The documents of these, from left to right. -/
  documents : List Document
  deriving DecidableEq

namespace OpenEntry

/-- Begin with a branch. -/
def start (branch : Branch) : OpenEntry := ⟨branch, 0, []⟩

/-- Pass over the next child. -/
def skip : OpenEntry → OpenEntry
  | ⟨branch, next, documents⟩ => ⟨branch, next + 1, documents⟩

/-- Put the document of a child behind the others. -/
def add (document : Document) : OpenEntry → OpenEntry
  | ⟨branch, next, documents⟩ => ⟨branch, next, documents ++ [document]⟩

end OpenEntry

/-- A tree that is being typeset, or its document. -/
inductive Typesetting where
  /-- Branches are open, the innermost first. -/
  | working (entries : List OpenEntry)
  /-- The tree is typeset. -/
  | done (document : Document)
  deriving DecidableEq

namespace Typesetting

/-- Go through the next child of the innermost branch, or put the branch together if all children
are done. An id without a node is passed over. -/
def turn (nodes : Array Node) : Typesetting → Typesetting
  | done document => done document
  | working [] => done ∅
  | working (innermost :: outer) =>
    match innermost.branch.children[innermost.next]? with
    | some id =>
      match nodes[id]? with
      | some (.branch child) => working (.start child :: innermost.skip :: outer)
      | some (.leaf tip) => working (innermost.skip.add (.text (Outline.leafText tip)) :: outer)
      | none => working (innermost.skip :: outer)
    | none =>
      let document := Outline.branchDocument innermost.branch innermost.documents
      match outer with
      | [] => done document
      | parent :: rest => working (parent.add document :: rest)

/-- Take a number of turns. -/
def turns (nodes : Array Node) : Nat → Typesetting → Typesetting
  | 0, typesetting => typesetting
  | count + 1, typesetting => turns nodes count (typesetting.turn nodes)

/-- Turns add up. -/
theorem turns_add (nodes : Array Node) (first second : Nat) (typesetting : Typesetting) :
    typesetting.turns nodes (first + second) =
      (typesetting.turns nodes first).turns nodes second := by
  induction first generalizing typesetting with
  | zero => rw [Nat.zero_add, turns]
  | succ first ih => rw [Nat.succ_add, turns, turns, ih]

end Typesetting

/-- Begin to typeset a tree: the root is open. -/
def ParseTree.typesetting (tree : ParseTree) : Typesetting := .working [.start tree.root]

end TransitionNetworks
