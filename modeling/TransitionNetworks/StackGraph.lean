import TransitionNetworks.Enumeration
import TransitionNetworks.Item

/-!
# The graph of stacks

All stacks of calls of a run are kept in one graph. Node `0` is the empty stack, and the frames
pushed have the nodes `1, 2, …` in the order in which they were first pushed. A node's stacks are
its frame on top of a stack of one of its callers, the items that made the call, so a node stands
for as many stacks as there are ways from caller to caller to the empty stack.

A node also remembers the items in which its call ended at the position where it began: a caller
that is registered later has to go on from these at once.

What is asked of a node that does not exist yet has an empty answer, and what is told it is lost.
-/

namespace TransitionNetworks

/-- What is known of the calls that share a node. -/
structure StackNode where
  /-- The items that made the call. -/
  callers : Enumeration Item
  /-- The items in which the call ended without consuming anything. -/
  emptyReturns : Enumeration Item

namespace StackNode

/-- A call that nobody has made and that has not ended. -/
def fresh : StackNode := ⟨∅, ∅⟩

instance : Inhabited StackNode := ⟨fresh⟩

/-- Register a caller. -/
def addCaller (caller : Item) : StackNode → StackNode
  | ⟨callers, emptyReturns⟩ => ⟨callers.insert caller, emptyReturns⟩

/-- Remember an item in which the call ended without consuming anything. -/
def addEmptyReturn (stop : Item) : StackNode → StackNode
  | ⟨callers, emptyReturns⟩ => ⟨callers, emptyReturns.insert stop⟩

end StackNode

/-- The stacks of calls of a run. -/
structure StackGraph where
  /-- The frames of all nodes but the first, in order. -/
  frames : Enumeration Frame
  /-- The nodes, the empty stack first. -/
  nodes : Array StackNode
  /-- Every node but the first has a frame. -/
  size_nodes : nodes.size = frames.size + 1

namespace StackGraph

/-- The graph that has the empty stack only. -/
def initial : StackGraph where
  frames := ∅
  nodes := #[StackNode.fresh]
  size_nodes := rfl

instance : Inhabited StackGraph := ⟨initial⟩

/-- How many nodes there are, the empty stack among them. -/
def size (graph : StackGraph) : Nat := graph.nodes.size

/-- The frame of a node, which the empty stack does not have. -/
def frame? (graph : StackGraph) : Nat → Option Frame
  | 0 => none
  | node + 1 => graph.frames.get? node

/-- The node of a frame. -/
def node? (graph : StackGraph) (frame : Frame) : Option Nat :=
  (graph.frames.indexOf? frame).map (· + 1)

/-- The items registered as callers of a node, first registered first. -/
def callers (graph : StackGraph) (node : Nat) : Enumeration Item :=
  (graph.nodes[node]?.getD StackNode.fresh).callers

/-- The items in which the call of a node ended where it began, first remembered first. -/
def emptyReturns (graph : StackGraph) (node : Nat) : Enumeration Item :=
  (graph.nodes[node]?.getD StackNode.fresh).emptyReturns

/-- A frame that has no node gets the next one. -/
theorem size_push {graph : StackGraph} {frame : Frame}
    (fresh : graph.frames.indexOf? frame = none) :
    (graph.nodes.push StackNode.fresh).size = (graph.frames.insert frame).size + 1 := by
  rw [Array.size_push, graph.size_nodes, Enumeration.size_insert,
    Enumeration.contains_eq_isSome_indexOf?, fresh]
  rfl

/-- The node of a frame, after making one if the frame has none. -/
def push (frame : Frame) (graph : StackGraph) : Nat × StackGraph :=
  match fresh : graph.frames.indexOf? frame with
  | some place => (place + 1, graph)
  | none =>
    (graph.nodes.size,
      { frames := graph.frames.insert frame
        nodes := graph.nodes.push StackNode.fresh
        size_nodes := size_push fresh })

/-- Register a caller of a node. -/
def addCaller (node : Nat) (caller : Item) (graph : StackGraph) : StackGraph where
  frames := graph.frames
  nodes := graph.nodes.modify node (StackNode.addCaller caller)
  size_nodes := by rw [Array.size_modify, graph.size_nodes]

/-- Remember an item in which the call of a node ended where it began. -/
def addEmptyReturn (node : Nat) (stop : Item) (graph : StackGraph) : StackGraph where
  frames := graph.frames
  nodes := graph.nodes.modify node (StackNode.addEmptyReturn stop)
  size_nodes := by rw [Array.size_modify, graph.size_nodes]

/-- Whether registering a caller of a node would be news. -/
def lacksCaller (graph : StackGraph) (node : Nat) (caller : Item) : Bool :=
  decide (node < graph.nodes.size) && !(graph.callers node).contains caller

/-- Whether remembering an item in which the call of a node ended where it began would be news. -/
def lacksEmptyReturn (graph : StackGraph) (node : Nat) (stop : Item) : Bool :=
  decide (node < graph.nodes.size) && !(graph.emptyReturns node).contains stop

@[simp] theorem frame?_empty (graph : StackGraph) : graph.frame? emptyStack = none := rfl

/-- In the beginning no node has a frame. -/
@[simp] theorem frame?_initial (node : Nat) : initial.frame? node = none := by
  cases node with
  | zero => rfl
  | succ place => exact Array.getElem?_empty

/-- In the beginning no node has a caller. -/
@[simp] theorem callers_initial (node : Nat) : initial.callers node = ∅ := by
  cases node <;> rfl

/-- In the beginning no node has an empty return. -/
@[simp] theorem emptyReturns_initial (node : Nat) : initial.emptyReturns node = ∅ := by
  cases node <;> rfl

/-- A frame that has a node keeps it, and the graph stays as it is. -/
theorem push_of_node? {graph : StackGraph} {frame : Frame} {node : Nat}
    (known : graph.node? frame = some node) : graph.push frame = (node, graph) := by
  obtain ⟨place, found, rfl⟩ := Option.map_eq_some_iff.1 known
  unfold push
  split
  · rename_i place' found'
    rw [found'] at found
    cases found
    rfl
  · rename_i fresh
    rw [fresh] at found
    cases found

/-- A frame without a node gets the next one, and is listed behind the others. -/
theorem push_of_node?_eq_none {graph : StackGraph} {frame : Frame}
    (unknown : graph.node? frame = none) :
    (graph.push frame).1 = graph.size ∧
      (graph.push frame).2.frames = graph.frames.insert frame ∧
      (graph.push frame).2.nodes = graph.nodes.push StackNode.fresh := by
  unfold push
  split
  · rename_i found
    simp [node?, found] at unknown
  · exact ⟨rfl, rfl, rfl⟩

/-- Registering a caller concerns the callers of its node alone. -/
theorem callers_addCaller (graph : StackGraph) (node other : Nat) (caller : Item) :
    (graph.addCaller node caller).callers other =
      if other = node ∧ node < graph.size then (graph.callers node).insert caller
      else graph.callers other := by
  unfold callers addCaller size
  rw [Array.getElem?_modify]
  by_cases same : node = other
  · subst same
    by_cases known : node < graph.nodes.size
    · simp [known, StackNode.addCaller]
    · simp [known]
  · simp [same, Ne.symm same]

/-- Remembering an empty return concerns the empty returns of its node alone. -/
theorem emptyReturns_addEmptyReturn (graph : StackGraph) (node other : Nat) (stop : Item) :
    (graph.addEmptyReturn node stop).emptyReturns other =
      if other = node ∧ node < graph.size then (graph.emptyReturns node).insert stop
      else graph.emptyReturns other := by
  unfold emptyReturns addEmptyReturn size
  rw [Array.getElem?_modify]
  by_cases same : node = other
  · subst same
    by_cases known : node < graph.nodes.size
    · simp [known, StackNode.addEmptyReturn]
    · simp [known]
  · simp [same, Ne.symm same]

/-- Registering a caller changes no empty returns. -/
@[simp] theorem emptyReturns_addCaller (graph : StackGraph) (node other : Nat)
    (caller : Item) : (graph.addCaller node caller).emptyReturns other =
      graph.emptyReturns other := by
  unfold emptyReturns addCaller
  rw [Array.getElem?_modify]
  split
  · rename_i same
    subst same
    cases graph.nodes[node]? <;> rfl
  · rfl

/-- Remembering an empty return changes no callers. -/
@[simp] theorem callers_addEmptyReturn (graph : StackGraph) (node other : Nat)
    (stop : Item) : (graph.addEmptyReturn node stop).callers other = graph.callers other := by
  unfold callers addEmptyReturn
  rw [Array.getElem?_modify]
  split
  · rename_i same
    subst same
    cases graph.nodes[node]? <;> rfl
  · rfl

@[simp] theorem frame?_addCaller (graph : StackGraph) (node other : Nat) (caller : Item) :
    (graph.addCaller node caller).frame? other = graph.frame? other := rfl

@[simp] theorem frame?_addEmptyReturn (graph : StackGraph) (node other : Nat) (stop : Item) :
    (graph.addEmptyReturn node stop).frame? other = graph.frame? other := rfl

/-- What is asked of a node after a push is what was asked of it before: the node pushed is known
already, or new and without an answer. -/
theorem nodes_push (graph : StackGraph) (frame : Frame) (node : Nat) :
    (graph.push frame).2.nodes[node]?.getD StackNode.fresh =
      graph.nodes[node]?.getD StackNode.fresh := by
  cases known : graph.node? frame with
  | some place => rw [push_of_node? known]
  | none =>
    rw [(push_of_node?_eq_none known).2.2, Array.getElem?_push]
    split
    · rename_i last
      simp [last]
    · rfl

/-- Pushing a frame leaves the callers alone. -/
@[simp] theorem callers_push (graph : StackGraph) (frame : Frame) (node : Nat) :
    (graph.push frame).2.callers node = graph.callers node :=
  congrArg StackNode.callers (graph.nodes_push frame node)

/-- Pushing a frame leaves the empty returns alone. -/
@[simp] theorem emptyReturns_push (graph : StackGraph) (frame : Frame) (node : Nat) :
    (graph.push frame).2.emptyReturns node = graph.emptyReturns node :=
  congrArg StackNode.emptyReturns (graph.nodes_push frame node)

/-- The node of a frame has that frame. -/
theorem node?_eq_some_iff (graph : StackGraph) (frame : Frame) (node : Nat) :
    graph.node? frame = some node ↔ graph.frame? node = some frame := by
  cases node with
  | zero => simp [node?, frame?]
  | succ place => simp [node?, frame?, Enumeration.indexOf?_eq_some_iff]

/-- A frame is on a node after a push if it was there before, or if it is the frame pushed and the
node the one given out. -/
theorem frame?_push (graph : StackGraph) (frame other : Frame) (node : Nat) :
    (graph.push frame).2.frame? node = some other ↔
      graph.frame? node = some other ∨ node = (graph.push frame).1 ∧ other = frame := by
  cases known : graph.node? frame with
  | some place =>
    rw [push_of_node? known]
    rw [node?_eq_some_iff] at known
    constructor
    · exact Or.inl
    · rintro (old | ⟨rfl, rfl⟩)
      · exact old
      · exact known
  | none =>
    -- a frame without a node is not listed, so it gets the last node and the others keep theirs
    obtain ⟨given, frames, -⟩ := push_of_node?_eq_none known
    have fresh : frame ∉ graph.frames := by
      intro listed
      obtain ⟨place, listed⟩ := Enumeration.mem_iff_exists_get?.1 listed
      have placed : graph.node? frame = some (place + 1) :=
        (graph.node?_eq_some_iff frame (place + 1)).2 listed
      rw [known] at placed
      cases placed
    have size : graph.size = graph.frames.size + 1 := graph.size_nodes
    cases node with
    | zero =>
      rw [given, size]
      simp [frame?]
    | succ place =>
      simp only [frame?, frames, given, size, Enumeration.get?_insert_of_not_mem fresh]
      by_cases last : place = graph.frames.size
      · have absent : graph.frames.get? place = none := by
          simp [Enumeration.get?, last, Enumeration.size]
        rw [if_pos last, absent]
        simp [last, eq_comm]
      · rw [if_neg last]
        simp [last]

/-- The node given out by a push has the frame pushed. -/
@[simp] theorem frame?_push_self (graph : StackGraph) (frame : Frame) :
    (graph.push frame).2.frame? (graph.push frame).1 = some frame :=
  (graph.frame?_push frame frame _).2 (Or.inr ⟨rfl, rfl⟩)

/-- No two nodes have the same frame. -/
theorem frame?_inj {graph : StackGraph} {frame : Frame} {node other : Nat}
    (here : graph.frame? node = some frame) (there : graph.frame? other = some frame) :
    node = other := by
  rw [← node?_eq_some_iff] at here there
  rw [here] at there
  exact Option.some.inj there

/-- A node with a frame is a node of the graph. -/
theorem lt_size_of_frame? {graph : StackGraph} {frame : Frame} {node : Nat}
    (here : graph.frame? node = some frame) : node < graph.size := by
  cases node with
  | zero => cases here
  | succ place =>
    have listed : place < graph.frames.size := by
      have here : graph.frames.elements[place]? = some frame := here
      exact (Array.getElem?_eq_some_iff.1 here).1
    have size : graph.size = graph.frames.size + 1 := graph.size_nodes
    omega

/-- Register a caller on the node of a frame, which is made if the frame has none. -/
def register (frame : Frame) (caller : Item) (graph : StackGraph) : StackGraph :=
  (graph.push frame).2.addCaller (graph.push frame).1 caller

/-- Registering a call adds its frame, on the node on which it is pushed. -/
theorem frame?_register (graph : StackGraph) (frame other : Frame) (caller : Item) (node : Nat) :
    (graph.register frame caller).frame? node = some other ↔
      graph.frame? node = some other ∨ node = (graph.push frame).1 ∧ other = frame :=
  graph.frame?_push frame other node

/-- Registering a call leaves the empty returns alone. -/
@[simp] theorem emptyReturns_register (graph : StackGraph) (frame : Frame) (caller : Item)
    (node : Nat) : (graph.register frame caller).emptyReturns node = graph.emptyReturns node := by
  simp [register]

/-- Registering adds the caller to the node of the frame and changes no other callers. -/
theorem mem_callers_register (graph : StackGraph) (frame : Frame) (caller other : Item)
    (node : Nat) :
    other ∈ (graph.register frame caller).callers node ↔
      other ∈ graph.callers node ∨ node = (graph.push frame).1 ∧ other = caller := by
  have known := lt_size_of_frame? (graph.frame?_push_self frame)
  rw [register, callers_addCaller, callers_push, callers_push]
  by_cases same : node = (graph.push frame).1
  · subst same
    simp [known, or_comm]
  · simp [same]

/-- Registering a caller that is registered only makes sure that the frame has a node. -/
theorem register_of_mem {graph : StackGraph} {frame : Frame} {caller : Item}
    (listed : caller ∈ graph.callers (graph.push frame).1) :
    graph.register frame caller = (graph.push frame).2 := by
  rw [← callers_push graph frame] at listed
  rw [register]
  generalize (graph.push frame).2 = pushed at listed ⊢
  generalize (graph.push frame).1 = node at listed ⊢
  obtain ⟨frames, nodes, size⟩ := pushed
  -- the node lists the caller already, and the other nodes are left alone
  have same : nodes.modify node (StackNode.addCaller caller) = nodes := by
    refine Array.ext_getElem? fun place => ?_
    rw [Array.getElem?_modify]
    split
    · rename_i here
      subst here
      cases found : nodes[node]? with
      | none => rfl
      | some known =>
        have listed : known.callers.contains caller = true := by
          rw [← Enumeration.mem_iff_contains]
          simpa [callers, found] using listed
        obtain ⟨callers, emptyReturns⟩ := known
        simp [StackNode.addCaller, Enumeration.insert_of_contains listed]
    · rfl
  simp [addCaller, same]

end StackGraph

end TransitionNetworks
