import TransitionNetworks.Proofs.Tree.Listing
import TransitionNetworks.Proofs.Tree.References
import TransitionNetworks.Tree.Traversal
import Mathlib.Data.List.Induction

/-! # A traversal finds the leaves

Where every node has its children in front of it (`Node.Descending`), the outline of a node is made
of those of its children (`Node.outlinesBelow_singleton`). So a traversal goes through what is below
the ids that wait, one node a turn, and finds its leaves (`Traversal.turns_append`): it ends,
however deep the tree is (`ParseTree.turns_traversal`). -/

namespace TransitionNetworks

namespace Event

/-- Whether a node begins with an event: a rule is entered or a token consumed. -/
def begins : Event → Bool
  | enter _ => true
  | exit _ => false
  | consume _ => true

end Event

namespace Node

/-- The outline of a node stays when another node is attached behind its children. -/
theorem outline_push {nodes : Array Node} {node : Node}
    (inUse : ∀ child ∈ node.children, child < nodes.size) (last : Node) :
    node.outline (outlines (nodes.push last)) = node.outline (outlines nodes) := by
  cases node with
  | leaf tip => rfl
  | branch top => exact congrArg (Outline.branch top) (outlinesBelow_push inUse last)

/-- **The outline below an id** is that of its node, made of those of its children. -/
theorem outlinesBelow_singleton {nodes : Array Node} (descending : Descending nodes) {id : Nat}
    {node : Node} (here : nodes[id]? = some node) :
    outlinesBelow nodes [id] = [node.outline (outlines nodes)] := by
  obtain ⟨list⟩ := nodes
  induction list using List.reverseRecOn with
  | nil => simp at here
  | append_singleton front last ih =>
    have split : (⟨front ++ [last]⟩ : Array Node) = (⟨front⟩ : Array Node).push last := by simp
    rw [split] at descending here ⊢
    obtain ⟨bound, -⟩ := Array.getElem?_eq_some_iff.1 here
    have below := descending id node here
    rw [Array.size_push] at bound
    by_cases isLast : id = (⟨front⟩ : Array Node).size
    · subst isLast
      rw [Array.getElem?_push_size] at here
      cases here
      rw [outlinesBelow_push_last, outline_push below]
    · -- an earlier node has its outline from when it was attached
      have before : id < (⟨front⟩ : Array Node).size := by omega
      rw [Array.getElem?_push_lt before, ← Array.getElem?_eq_getElem before] at here
      rw [outlinesBelow_push (List.forall_mem_singleton.2 before), ih descending.of_push here,
        outline_push]
      exact fun child isChild => Nat.lt_trans (below child isChild) before

/-- The leaves below consecutive ids are those of the first node and those behind it. -/
theorem leavesBelow_cons {nodes : Array Node} (descending : Descending nodes) {id : Nat}
    {node : Node} (here : nodes[id]? = some node) (ids : List Nat) :
    leavesBelow nodes (id :: ids) = node.leavesAmong nodes ++ leavesBelow nodes ids := by
  have outline := congrArg (List.flatMap Outline.leaves) (outlinesBelow_singleton descending here)
  rw [List.flatMap_singleton, leaves_outline] at outline
  rw [← List.singleton_append, leavesBelow_append, ← outline]
  rfl

/-- The events below an id are those of its node. -/
theorem eventsBelow_singleton {nodes : Array Node} (descending : Descending nodes) {id : Nat}
    {node : Node} (here : nodes[id]? = some node) :
    eventsBelow nodes [id] = node.eventsAmong nodes := by
  rw [eventsBelow, outlinesBelow_singleton descending here, Outline.eventsAll, Outline.eventsAll,
    List.append_nil]
  cases node <;> rfl

/-- How many nodes there are below the nodes with some ids, these included. -/
def countBelow (nodes : Array Node) (ids : List Nat) : Nat :=
  (eventsBelow nodes ids).countP Event.begins

@[simp] theorem countBelow_nil (nodes : Array Node) : countBelow nodes [] = 0 := rfl

@[simp] theorem leavesBelow_nil (nodes : Array Node) : leavesBelow nodes [] = [] := rfl

/-- Below an id are its node and what is below the children of the node. -/
theorem countBelow_cons {nodes : Array Node} (descending : Descending nodes) {id : Nat}
    {node : Node} (here : nodes[id]? = some node) (ids : List Nat) :
    countBelow nodes (id :: ids) = 1 + (countBelow nodes node.children + countBelow nodes ids) := by
  have split : eventsBelow nodes (id :: ids) = node.eventsAmong nodes ++ eventsBelow nodes ids := by
    rw [← List.singleton_append, eventsBelow_append, eventsBelow_singleton descending here]
  rw [countBelow, split, List.countP_append, ← countBelow, ← Nat.add_assoc]
  congr 1
  cases node with
  | leaf tip => rfl
  | branch top =>
    rw [eventsAmong, List.countP_cons, List.countP_append]
    simp [children, countBelow, Event.begins, Nat.add_comm]

end Node

namespace Traversal

variable {nodes : Array Node}

/-- **A traversal goes through what waits** in as many turns as there are nodes, and finds the
leaves. -/
theorem turns_append (descending : Node.Descending nodes) {ids : List Nat}
    (inUse : ∀ id ∈ ids, id < nodes.size) (found : Array Leaf) (waiting : List Nat) :
    turns nodes (Node.countBelow nodes ids) ⟨found, ids ++ waiting⟩ =
      ⟨found ++ (Node.leavesBelow nodes ids).toArray, waiting⟩ := by
  -- children have smaller ids than their node, so the induction is on a bound of the ids
  suffices general : ∀ bound ≤ nodes.size, ∀ ids : List Nat, (∀ id ∈ ids, id < bound) →
      ∀ found waiting, turns nodes (Node.countBelow nodes ids) ⟨found, ids ++ waiting⟩ =
        ⟨found ++ (Node.leavesBelow nodes ids).toArray, waiting⟩ from
    general _ (Nat.le_refl _) ids inUse found waiting
  have nothing : ∀ found waiting, turns nodes (Node.countBelow nodes []) ⟨found, [] ++ waiting⟩ =
      ⟨found ++ (Node.leavesBelow nodes []).toArray, waiting⟩ := by
    intro found waiting
    simp [turns]
  intro bound
  induction bound with
  | zero =>
    intro _ ids below
    have none : ids = [] := List.eq_nil_iff_forall_not_mem.2 fun id member =>
      absurd (below id member) (Nat.not_lt_zero id)
    subst none
    exact nothing
  | succ bound ihBound =>
    intro inside ids below
    induction ids with
    | nil => exact nothing
    | cons id ids ih =>
      intro found waiting
      obtain ⟨first, others⟩ := List.forall_mem_cons.1 below
      have here := Array.getElem?_eq_getElem (Nat.lt_of_lt_of_le first inside)
      generalize nodes[id] = node at here
      rw [Node.countBelow_cons descending here, Node.leavesBelow_cons descending here, turns_add,
        turns_add]
      cases node with
      | leaf tip =>
        have taken : turns nodes 1 ⟨found, (id :: ids) ++ waiting⟩ =
            ⟨found.push tip, ids ++ waiting⟩ := by
          simp [turns, turn, here]
        rw [taken, Node.children, Node.countBelow_nil, turns, ih others]
        simp [Node.leavesAmong]
      | branch top =>
        have taken : turns nodes 1 ⟨found, (id :: ids) ++ waiting⟩ =
            ⟨found, top.children.toList ++ (ids ++ waiting)⟩ := by
          simp [turns, turn, here]
        have smaller : ∀ child ∈ top.children.toList, child < bound := by
          intro child isChild
          have := descending id _ here child isChild
          omega
        rw [taken, Node.children, ihBound (by omega) _ smaller, ih others]
        simp [Node.leavesAmong]

end Traversal

/-- **A traversal of a tree ends** with its leaves, having taken a turn for each of its nodes. -/
theorem ParseTree.turns_traversal {tree : ParseTree} (descending : Node.Descending tree.nodes)
    (inUse : ∀ id ∈ tree.root.children.toList, id < tree.nodes.size) :
    tree.traversal.turns tree.nodes (tree.listing.countP Event.begins) =
      ⟨tree.leaves.toArray, []⟩ := by
  have ends := Traversal.turns_append descending inUse #[] []
  rw [List.append_nil, Array.empty_append] at ends
  rw [leaves_eq]
  exact ends

end TransitionNetworks
