import TransitionNetworks.Network.Listing
import TransitionNetworks.Text.Escaped

/-!
# The graph of a network

A labelled graph has a node for each state and an arrow for each transition, and a call has two: one
to the start of the rule and one to the state that follows. `Graph.description` writes a graph in
the language of GraphViz, the nodes first and then the arrows.
-/

namespace TransitionNetworks

/-- An arrow between two states. -/
structure Arrow where
  /-- The state where the arrow begins. -/
  source : Nat
  /-- The state to which the arrow points. -/
  target : Nat
  /-- What is written at the arrow. -/
  label : String
  deriving DecidableEq

/-- A labelled graph of states. -/
structure Graph where
  /-- The nodes, each with what is written in it. -/
  nodes : List (Nat × String)
  /-- The arrows. -/
  arrows : List Arrow
  deriving DecidableEq

namespace Blueprint

/-- What is written in the node of a state. -/
def nodeLabel (blueprint : Blueprint) (id : Nat) : StateKind → String
  | .basic => stateText id
  | .start rule => stateText id ++ " start " ++ (blueprint.ruleName? rule).getD ""
  | .stop rule => stateText id ++ " stop " ++ (blueprint.ruleName? rule).getD ""

/-- How the arrows of a call name the rule. -/
def calleeName (blueprint : Blueprint) (rule : Nat) : String :=
  (blueprint.ruleName? rule).getD ("#" ++ Nat.repr rule)

/-- The arrows of a transition. -/
def transitionArrows (blueprint : Blueprint) (source : Nat) : Transition → List Arrow
  | .terminal matcher target => [⟨source, target, matcher.text⟩]
  | .call start follow rule =>
    [⟨source, start, "call " ++ blueprint.calleeName rule⟩,
     ⟨source, follow, "after " ++ blueprint.calleeName rule⟩]
  | .epsilon kind target => [⟨source, target, "ε " ++ kind.text⟩]

/-- The graph of the states and transitions in order. -/
def graph (blueprint : Blueprint) : Graph where
  nodes := blueprint.states.toList.zipIdx.map fun (state, id) =>
    (id, blueprint.nodeLabel id state.kind)
  arrows := blueprint.states.toList.zipIdx.flatMap fun (state, id) =>
    state.transitions.flatMap (blueprint.transitionArrows id)

end Blueprint

namespace Graph

/-- The label attribute of a node or arrow, and the end of its line. -/
def labelAttribute (label : String) : String := "[label=\"" ++ Escaped.encode label ++ "\"];\n"

/-- The line of a node. -/
def nodeLine (node : Nat × String) : String := "    " ++ stateText node.1 ++ labelAttribute node.2

/-- The line of an arrow. -/
def arrowLine (arrow : Arrow) : String :=
  "    " ++ stateText arrow.source ++ " -> " ++ stateText arrow.target ++ labelAttribute arrow.label

/-- The description of a graph: its nodes, then its arrows, a line for each. -/
def description (graph : Graph) : String :=
  "digraph automaton \x7b\n" ++ String.join (graph.nodes.map nodeLine) ++
    String.join (graph.arrows.map arrowLine) ++ "\x7d\n"

end Graph

end TransitionNetworks
