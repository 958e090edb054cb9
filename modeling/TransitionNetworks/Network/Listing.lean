import TransitionNetworks.Document
import TransitionNetworks.Network

/-!
# The listing of a network

A listing shows the states in order, each with its transitions behind it: on one line if they fit,
and otherwise one below the other. A rule is shown by its name between angle brackets. A call is
shown as a step to the state that follows it.
-/

namespace TransitionNetworks

/-- How a listing names a state. -/
def stateText (state : Nat) : String := "s" ++ Nat.repr state

namespace Blueprint

/-- How a listing names a rule: by its name, or by its number if there is no such rule. -/
def ruleReference (blueprint : Blueprint) (rule : Nat) : String :=
  match blueprint.ruleName? rule with
  | some name => "<" ++ name ++ ">"
  | none => "<#" ++ Nat.repr rule ++ ">"

/-- The head of a state's entry. -/
def stateHeader (blueprint : Blueprint) (id : Nat) : StateKind → String
  | .basic => stateText id
  | .start rule => stateText id ++ " start " ++ blueprint.ruleReference rule
  | .stop rule => stateText id ++ " stop " ++ blueprint.ruleReference rule

/-- The entry of a transition: what it does and where it leads. -/
def transitionText (blueprint : Blueprint) : Transition → String
  | .terminal matcher target => matcher.text ++ " -> " ++ stateText target
  | .call _ follow rule => blueprint.ruleReference rule ++ " -> " ++ stateText follow
  | .epsilon kind target => kind.text ++ " -> " ++ stateText target

/-- The entry of a state: its head and its transitions, on one line if they fit. -/
def stateDocument (blueprint : Blueprint) (id : Nat) (state : State) : Document :=
  .group (.text (blueprint.stateHeader id state.kind ++ ":") ++
    .nested 2 (.line ++
      .joined .line (state.transitions.map fun transition =>
        .text (blueprint.transitionText transition))))

/-- The entries of all states, one below the other. -/
def document (blueprint : Blueprint) : Document :=
  .joined (.text ";" ++ .line)
    (blueprint.states.toList.zipIdx.map fun (state, id) => blueprint.stateDocument id state)

/-- The listing on a page of a given width. -/
def listing (blueprint : Blueprint) (width : Nat) : String := blueprint.document.print width

end Blueprint

end TransitionNetworks
