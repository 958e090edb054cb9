import TransitionNetworks.StackGraph

/-!
# Operations on the graph of stacks

What the graph of stacks can be asked and told, as data, so that a use of the graph is a list of
operations and a list of answers. An operation may name any node, whether it exists yet or not.
-/

namespace TransitionNetworks

/-- What the graph of stacks can be asked and told. -/
inductive StackOperation where
  /-- Give out the node of a frame. -/
  | push (frame : Frame)
  /-- Register a caller of a node. -/
  | addCaller (node : Nat) (caller : Item)
  /-- Remember an item in which the call of a node ended where it began. -/
  | addEmptyReturn (node : Nat) (stop : Item)
  /-- Ask for the frame of a node. -/
  | askFrame (node : Nat)
  /-- Ask for the callers of a node. -/
  | askCallers (node : Nat)
  /-- Ask for the items in which the call of a node ended where it began. -/
  | askEmptyReturns (node : Nat)
  /-- Ask how many nodes there are. -/
  | askSize
  deriving DecidableEq

/-- What the graph of stacks answers. -/
inductive StackAnswer where
  /-- The node given out, and whether it is new. -/
  | node (node : Nat) (fresh : Bool)
  /-- Whether what was told was news. -/
  | news (isNews : Bool)
  /-- The frame asked for. -/
  | frame (frame : Option Frame)
  /-- The items asked for. -/
  | items (items : List Item)
  /-- How many nodes there are. -/
  | size (size : Nat)
  deriving DecidableEq

namespace StackGraph

/-- Perform an operation. -/
def perform (operation : StackOperation) (graph : StackGraph) : StackAnswer × StackGraph :=
  match operation with
  | .push frame =>
    let (node, pushed) := graph.push frame
    (.node node (graph.node? frame).isNone, pushed)
  | .addCaller node caller =>
    (.news (graph.lacksCaller node caller), graph.addCaller node caller)
  | .addEmptyReturn node stop =>
    (.news (graph.lacksEmptyReturn node stop), graph.addEmptyReturn node stop)
  | .askFrame node => (.frame (graph.frame? node), graph)
  | .askCallers node => (.items (graph.callers node).toList, graph)
  | .askEmptyReturns node => (.items (graph.emptyReturns node).toList, graph)
  | .askSize => (.size graph.size, graph)

/-- Perform operations one after the other. -/
def performAll : List StackOperation → StackGraph → List StackAnswer × StackGraph
  | [], graph => ([], graph)
  | operation :: rest, graph =>
    let (answer, graph) := graph.perform operation
    let (answers, graph) := performAll rest graph
    (answer :: answers, graph)

end StackGraph

end TransitionNetworks
