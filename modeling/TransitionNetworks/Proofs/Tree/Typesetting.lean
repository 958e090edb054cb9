import TransitionNetworks.Proofs.Tree.Traversal
import TransitionNetworks.Tree.Typesetting

/-! # Typesetting ends with the document of the tree

Typesetting takes a turn when a branch begins and one when it is put together, and one for a leaf:
as many as the events that the tree was assembled from, and a last one for the root. What it puts
together of the children of a branch are the documents of their outlines
(`Typesetting.turns_below`), so it ends with the document of the outline of the tree, however deep
that is (`ParseTree.turns_typesetting`). -/

namespace TransitionNetworks

namespace Node

/-- The outlines below consecutive ids are that of the first node and those behind it. -/
theorem outlinesBelow_cons {nodes : Array Node} (descending : Descending nodes) {id : Nat}
    {node : Node} (here : nodes[id]? = some node) (ids : List Nat) :
    outlinesBelow nodes (id :: ids) = node.outline (outlines nodes) :: outlinesBelow nodes ids := by
  have first := outlinesBelow_singleton descending here
  rw [← List.singleton_append, outlinesBelow, List.filterMap_append, ← outlinesBelow, first]
  rfl

/-- The documents below the nodes with some ids, from left to right. -/
def documentsBelow (nodes : Array Node) (ids : List Nat) : List Document :=
  Outline.documents (outlinesBelow nodes ids)

/-- The documents below consecutive ids are that of the first node and those behind it. -/
theorem documentsBelow_cons {nodes : Array Node} (descending : Descending nodes) {id : Nat}
    {node : Node} (here : nodes[id]? = some node) (ids : List Nat) :
    documentsBelow nodes (id :: ids) =
      (node.outline (outlines nodes)).document :: documentsBelow nodes ids := by
  rw [documentsBelow, outlinesBelow_cons descending here, Outline.documents]
  rfl

/-- The events below consecutive ids are those of the first node and those behind it. -/
theorem length_eventsBelow_cons {nodes : Array Node} (descending : Descending nodes) {id : Nat}
    {node : Node} (here : nodes[id]? = some node) (ids : List Nat) :
    (eventsBelow nodes (id :: ids)).length =
      (node.eventsAmong nodes).length + (eventsBelow nodes ids).length := by
  rw [← List.singleton_append, eventsBelow_append, eventsBelow_singleton descending here,
    List.length_append]

end Node

namespace Typesetting

variable {nodes : Array Node}

/-- The next child of a branch is the first of those that are left. -/
theorem getElem?_of_drop_eq_cons {children : Array Nat} {next id : Nat} {left : List Nat}
    (unread : children.toList.drop next = id :: left) :
    children[next]? = some id ∧ children.toList.drop (next + 1) = left := by
  constructor
  · rw [← Array.getElem?_toList, ← Nat.add_zero next, ← List.getElem?_drop, unread]
    rfl
  · rw [← List.drop_drop, unread]
    rfl

/-- A branch whose children are all done is put together, for the branch around it. -/
theorem turn_close (nodes : Array Node) (branch : Branch) (documents : List Document)
    (parent : OpenEntry) (outer : List OpenEntry) :
    turn nodes (working (⟨branch, branch.children.size, documents⟩ :: parent :: outer)) =
      working (parent.add (Outline.branchDocument branch documents) :: outer) := by
  simp [turn]

/-- The root is put together last. -/
theorem turn_close_root (nodes : Array Node) (branch : Branch) (documents : List Document) :
    turn nodes (working [⟨branch, branch.children.size, documents⟩]) =
      done (Outline.branchDocument branch documents) := by
  simp [turn]

/-- **The children of a branch are typeset** in as many turns as there are events below, and give
their documents. -/
theorem turns_below (descending : Node.Descending nodes) {branch : Branch}
    (inUse : ∀ id ∈ branch.children.toList, id < nodes.size) (outer : List OpenEntry) :
    turns nodes (Node.eventsBelow nodes branch.children.toList).length
        (working (.start branch :: outer)) =
      working (⟨branch, branch.children.size,
        Node.documentsBelow nodes branch.children.toList⟩ :: outer) := by
  -- children have smaller ids than their node, so the induction is on a bound of the ids, and for
  -- every bound on the children that are left
  suffices general : ∀ bound ≤ nodes.size, ∀ (left : List Nat) (branch : Branch) (next : Nat)
      (documents : List Document) (outer : List OpenEntry), (∀ id ∈ left, id < bound) →
      branch.children.toList.drop next = left →
      turns nodes (Node.eventsBelow nodes left).length
          (working (⟨branch, next, documents⟩ :: outer)) =
        working (⟨branch, next + left.length, documents ++ Node.documentsBelow nodes left⟩ ::
          outer) by
    have done := general _ (Nat.le_refl _) _ branch 0 [] outer inUse List.drop_zero
    have all : branch.children.toList.length = branch.children.size := Array.length_toList
    rwa [Nat.zero_add, List.nil_append, all] at done
  have nothing : ∀ (branch : Branch) (next : Nat) (documents : List Document)
      (outer : List OpenEntry),
      turns nodes (Node.eventsBelow nodes []).length
          (working (⟨branch, next, documents⟩ :: outer)) =
        working (⟨branch, next + ([] : List Nat).length,
          documents ++ Node.documentsBelow nodes []⟩ :: outer) := by
    intro branch next documents outer
    simp [Node.eventsBelow, Node.documentsBelow, Node.outlinesBelow, Outline.eventsAll,
      Outline.documents, turns]
  intro bound
  induction bound with
  | zero =>
    intro _ left branch next documents outer below _
    have none : left = [] := List.eq_nil_iff_forall_not_mem.2 fun id member =>
      absurd (below id member) (Nat.not_lt_zero id)
    subst none
    exact nothing branch next documents outer
  | succ bound ihBound =>
    intro inside left
    induction left with
    | nil => exact fun branch next documents outer _ _ => nothing branch next documents outer
    | cons id left ih =>
      intro branch next documents outer below unread
      obtain ⟨first, others⟩ := List.forall_mem_cons.1 below
      obtain ⟨child, unread⟩ := getElem?_of_drop_eq_cons unread
      have here := Array.getElem?_eq_getElem (Nat.lt_of_lt_of_le first inside)
      generalize nodes[id] = node at here
      rw [Node.length_eventsBelow_cons descending here, Node.documentsBelow_cons descending here,
        turns_add, List.length_cons, ← Nat.add_assoc, Nat.add_right_comm]
      cases node with
      | leaf tip =>
        have taken : turns nodes (Node.eventsAmong nodes (.leaf tip)).length
            (working (⟨branch, next, documents⟩ :: outer)) =
              working
                (⟨branch, next + 1, documents ++ [.text (Outline.leafText tip)]⟩ :: outer) := by
          simp [Node.eventsAmong, turns, turn, child, here, OpenEntry.skip, OpenEntry.add]
        rw [taken, ih _ _ _ _ others unread, List.append_assoc]
        rfl
      | branch top =>
        have smaller : ∀ grandchild ∈ top.children.toList, grandchild < bound := by
          intro grandchild isChild
          have := descending id _ here grandchild isChild
          omega
        have begun : turn nodes (working (⟨branch, next, documents⟩ :: outer)) =
            working (.start top :: ⟨branch, next + 1, documents⟩ :: outer) := by
          simp [turn, child, here, OpenEntry.skip]
        have through := ihBound (Nat.le_of_succ_le inside) top.children.toList top 0 []
          (⟨branch, next + 1, documents⟩ :: outer) smaller List.drop_zero
        have all : top.children.toList.length = top.children.size := Array.length_toList
        rw [Nat.zero_add, List.nil_append, all] at through
        have taken : turns nodes (Node.eventsAmong nodes (.branch top)).length
            (working (⟨branch, next, documents⟩ :: outer)) =
              working (⟨branch, next + 1, documents ++ [Outline.branchDocument top
                (Node.documentsBelow nodes top.children.toList)]⟩ :: outer) := by
          rw [Node.eventsAmong, List.length_cons, List.length_append, turns, begun, turns_add,
            OpenEntry.start, through, List.length_singleton, turns, turn_close, turns]
          rfl
        rw [taken, ih _ _ _ _ others unread, List.append_assoc]
        rfl

end Typesetting

/-- **Typesetting a tree ends** with the document of its outline, one turn behind those for the
events below the root. -/
theorem ParseTree.turns_typesetting {tree : ParseTree} (descending : Node.Descending tree.nodes)
    (inUse : ∀ id ∈ tree.root.children.toList, id < tree.nodes.size) :
    tree.typesetting.turns tree.nodes (tree.listing.length + 1) = .done tree.outline.document := by
  rw [Typesetting.turns_add]
  have below := Typesetting.turns_below descending inUse []
  rw [typesetting]
  have same : tree.listing = Node.eventsBelow tree.nodes tree.root.children.toList := rfl
  rw [same, below, Typesetting.turns, Typesetting.turn_close_root, Typesetting.turns]
  rfl

end TransitionNetworks
