import TransitionNetworks.Grammar.Layout

/-!
# Drawing the network of a grammar

A blueprint is drawn state by state. A new state comes behind those that are there, so that its id
is how many there were, and a new transition behind those of the state that it leaves. First every
rule gets its start and its stop state. Then the alternatives are drawn in reading order, and what a
step calls is looked up when the drawing comes to the step.

`Grammar.build` draws a grammar and looks the drawing over. It comes to the same as resolving the
grammar first and laying it out by computed places (`Grammar.build_eq_toNetwork`).
-/

namespace TransitionNetworks

namespace Blueprint

/-- Nothing is drawn. -/
def blank : Blueprint := ⟨#[], #[]⟩

/-- Draw a state without transitions behind the others. -/
def addState (kind : StateKind) (blueprint : Blueprint) : Nat × Blueprint :=
  (blueprint.states.size, { blueprint with states := blueprint.states.push ⟨kind, []⟩ })

/-- Draw a transition behind those that leave the state. -/
def addTransition (source : Nat) (transition : Transition) (blueprint : Blueprint) : Blueprint :=
  { blueprint with
    states := blueprint.states.modify source fun state =>
      { state with transitions := state.transitions ++ [transition] } }

/-- Draw the start and the stop state of a rule. -/
def addRule (blueprint : Blueprint) (name : String) : Blueprint :=
  let rule := blueprint.rules.size
  let (start, blueprint) := blueprint.addState (.start rule)
  let (stop, blueprint) := blueprint.addState (.stop rule)
  { blueprint with rules := blueprint.rules.push ⟨name, start, stop⟩ }

/-- The transition that takes a step to the next state. The rule called is looked up by its name. -/
def transitionOf (next : Nat) (step : Step String) (blueprint : Blueprint) :
    Except Fault Transition :=
  match step with
  | .consume matcher => .ok (.terminal matcher next)
  | .call name =>
    match blueprint.rules.findFinIdx? fun rule => rule.name == name with
    | some callee => .ok (.call blueprint.rules[callee].start next callee)
    | none => .error (.undefinedRule name)
  | .epsilon kind => .ok (.epsilon kind next)

/-- Draw a step from the state that the drawing has come to, and go on from the next state. -/
def drawStep (draft : Blueprint × Nat) (step : Step String) : Except Fault (Blueprint × Nat) := do
  let (next, blueprint) := draft.1.addState .basic
  let transition ← blueprint.transitionOf next step
  return (blueprint.addTransition draft.2 transition, next)

/-- Draw an alternative of a rule: a state for its head, to which the start of the rule leads, then
its steps, and from where they come to a transition to the stop of the rule. -/
def drawAlternative (rule : Rule) (blueprint : Blueprint) (alternative : Alternative String) :
    Except Fault Blueprint := do
  let (head, blueprint) := blueprint.addState .basic
  let blueprint := blueprint.addTransition rule.start (.epsilon .plain head)
  let (blueprint, last) ← alternative.foldlM drawStep (blueprint, head)
  return blueprint.addTransition last (.epsilon .plain rule.stop)

/-- Draw the alternatives of a rule that has its start and its stop state. -/
def drawRule (blueprint : Blueprint) (drawn : Production String × Rule) : Except Fault Blueprint :=
  drawn.1.alternatives.foldlM (drawAlternative drawn.2) blueprint

end Blueprint

namespace Grammar

/-- The start and stop states of all rules. -/
def frame (grammar : Grammar) : Blueprint := grammar.names.foldl Blueprint.addRule .blank

/-- Draw all rules, or report the first call of a rule that is not there. -/
def draw (grammar : Grammar) : Except Fault Blueprint :=
  (grammar.productions.zip grammar.frame.rules.toList).foldlM Blueprint.drawRule grammar.frame

/-- Draw a grammar without repeated names and look the drawing over. -/
def build (grammar : Grammar) : Except Fault Network :=
  match firstRepeated? grammar.names with
  | some name => .error (.duplicateRule name)
  | none => grammar.draw.bind Blueprint.check

end Grammar

end TransitionNetworks
