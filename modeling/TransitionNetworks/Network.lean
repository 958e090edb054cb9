import TransitionNetworks.Matcher

/-!
# Recursive transition networks

A network is a list of states, each with its transitions, and a list of named rules, each with the
state in which it starts and the state in which it stops. A transition consumes a token, calls a
rule, or does neither.

A `Blueprint` is a network that nobody has looked over yet; `Blueprint.faults` lists what is wrong
with it, and a `Network` is a blueprint without faults. `Blueprint.check` makes a network out of a
blueprint or reports the first fault.

States and rules are named by their ids, which are their places in the two lists.
-/

namespace TransitionNetworks

/-- How messages name the state with an id. -/
def mentionState (state : Nat) : String := "StateId(" ++ Nat.repr state ++ ")"

/-- How messages name the rule with an id. -/
def mentionRule (rule : Nat) : String := "RuleIndex(" ++ Nat.repr rule ++ ")"

/-- What part a state plays in a rule. -/
inductive StateKind where
  /-- A state inside a rule. -/
  | basic
  /-- The state in which a rule starts. -/
  | start (rule : Nat)
  /-- A state in which a rule stops. -/
  | stop (rule : Nat)
  deriving DecidableEq

/-- The rule that a state starts or stops. -/
def StateKind.rule? : StateKind → Option Nat
  | basic => none
  | start rule => some rule
  | stop rule => some rule

/-- The sorts of transitions that neither consume nor call. All behave alike. -/
inductive EpsilonKind where
  /-- A plain step. -/
  | plain
  /-- A step that stands for a semantic predicate. -/
  | predicate
  /-- A step that stands for an action. -/
  | action
  /-- A step that stands for a precedence test. -/
  | precedence
  deriving DecidableEq

/-- The name of a sort of epsilon step. -/
def EpsilonKind.text : EpsilonKind → String
  | plain => "Plain"
  | predicate => "Predicate"
  | action => "Action"
  | precedence => "Precedence"

/-- A transition out of a state. -/
inductive Transition where
  /-- Consume one token that the matcher accepts and go to the target. -/
  | terminal (matcher : Matcher) (target : Nat)
  /-- Go through a rule from its start, then on to the state that follows the call. -/
  | call (start follow : Nat) (rule : Nat)
  /-- Go to the target and consume nothing. -/
  | epsilon (kind : EpsilonKind) (target : Nat)
  deriving DecidableEq

/-- The states that a transition names, in the order in which they are looked up. -/
def Transition.references : Transition → List Nat
  | terminal _ target => [target]
  | call start follow _ => [start, follow]
  | epsilon _ target => [target]

/-- Whether a transition calls a rule. -/
def Transition.isCall : Transition → Bool
  | call .. => true
  | _ => false

/-- A state with the transitions out of it, in the order in which they are tried. -/
structure State where
  /-- The part the state plays in a rule. -/
  kind : StateKind
  /-- The transitions out of the state. -/
  transitions : List Transition
  deriving DecidableEq

/-- The rule that is complete in a state. -/
def State.stopRule? (state : State) : Option Nat :=
  match state.kind with
  | .stop rule => some rule
  | _ => none

/-- A rule is complete in the states of its stop kind. -/
@[simp] theorem State.stopRule?_eq_some_iff (state : State) (rule : Nat) :
    state.stopRule? = some rule ↔ state.kind = .stop rule := by
  unfold State.stopRule?
  split <;> simp_all

/-- A named rule. -/
structure Rule where
  /-- The name by which grammars call the rule. -/
  name : String
  /-- The state in which the rule starts. -/
  start : Nat
  /-- The state in which the rule stops when it is the start rule of a run. -/
  stop : Nat
  deriving DecidableEq

/-- Why a network cannot be made. -/
inductive Fault where
  /-- A transition of the source names a state that does not exist. -/
  | missingState (source target : Nat)
  /-- A rule does not start and stop in states of its own kind, or a state names no rule. -/
  | ruleBoundary (rule : Nat)
  /-- A call enters the rule elsewhere than at its start, or the rule does not exist. -/
  | badCall (source : Nat) (rule : Nat)
  /-- A grammar calls a rule that it does not define. -/
  | undefinedRule (name : String)
  /-- A grammar defines a rule twice. -/
  | duplicateRule (name : String)
  deriving DecidableEq

/-- The message of a fault. -/
def Fault.message : Fault → String
  | missingState source target =>
    "state " ++ mentionState source ++ " refers to missing state " ++ mentionState target
  | ruleBoundary rule =>
    "rule " ++ mentionRule rule ++ " has a start or stop state of the wrong kind"
  | badCall source rule =>
    "state " ++ mentionState source ++ " calls rule " ++ mentionRule rule ++
      " through a state that is not its start state"
  | undefinedRule name => "reference to undefined rule `" ++ name ++ "`"
  | duplicateRule name => "rule `" ++ name ++ "` is defined more than once"

/-- States and rules that have not been looked over. -/
structure Blueprint where
  /-- The states, each at the place that is its id. -/
  states : Array State
  /-- The rules, each at the place that is its id. -/
  rules : Array Rule
  deriving DecidableEq

namespace Blueprint

/-- The state with an id. -/
def state? (blueprint : Blueprint) (state : Nat) : Option State := blueprint.states[state]?

/-- The rule with an id. -/
def rule? (blueprint : Blueprint) (rule : Nat) : Option Rule := blueprint.rules[rule]?

/-- The name of the rule with an id. -/
def ruleName? (blueprint : Blueprint) (rule : Nat) : Option String :=
  (blueprint.rule? rule).map Rule.name

/-- The first rule with a name. -/
def ruleNamed? (blueprint : Blueprint) (name : String) : Option Nat :=
  blueprint.rules.findIdx? fun rule => rule.name == name

/-- A rule is at fault unless its start and stop states exist and are of its own kind. -/
def ruleFaults (blueprint : Blueprint) (id : Nat) (rule : Rule) : List Fault :=
  if (blueprint.state? rule.start).map State.kind = some (.start id) ∧
      (blueprint.state? rule.stop).map State.kind = some (.stop id) then
    []
  else
    [.ruleBoundary id]

/-- A state that starts or stops a rule is at fault unless the rule exists. -/
def kindFaults (blueprint : Blueprint) (kind : StateKind) : List Fault :=
  match kind.rule? with
  | none => []
  | some rule => if (blueprint.rule? rule).isSome then [] else [.ruleBoundary rule]

/-- A transition is at fault for every state it names that does not exist, and then, if it is a
call, for a rule that does not start in the state the call enters. -/
def transitionFaults (blueprint : Blueprint) (source : Nat) (transition : Transition) :
    List Fault :=
  (transition.references.filter fun target => (blueprint.state? target).isNone).map
      (Fault.missingState source) ++
    match transition with
    | .call start _ rule =>
      if (blueprint.rule? rule).map Rule.start = some start then [] else [.badCall source rule]
    | _ => []

/-- The faults of a state are those of its kind and then those of its transitions in order. -/
def stateFaults (blueprint : Blueprint) (id : Nat) (state : State) : List Fault :=
  blueprint.kindFaults state.kind ++ state.transitions.flatMap (blueprint.transitionFaults id)

/-- The faults of a blueprint: first those of the rules in order, then those of the states. -/
def faults (blueprint : Blueprint) : List Fault :=
  (blueprint.rules.toList.zipIdx.flatMap fun (rule, id) => blueprint.ruleFaults id rule) ++
    blueprint.states.toList.zipIdx.flatMap fun (state, id) => blueprint.stateFaults id state

end Blueprint

/-- A network: a blueprint without faults. -/
structure Network extends Blueprint where
  /-- There is nothing wrong with the states and rules. -/
  faultless : toBlueprint.faults = []
  deriving DecidableEq

/-- Make a network of a blueprint, or report the first of its faults. -/
def Blueprint.check (blueprint : Blueprint) : Except Fault Network :=
  match found : blueprint.faults with
  | [] => .ok { toBlueprint := blueprint, faultless := found }
  | fault :: _ => .error fault

/-- A blueprint becomes a network, and an unchanged one, exactly if it has no faults. -/
theorem Blueprint.check_eq_ok_iff (blueprint : Blueprint) (network : Network) :
    blueprint.check = .ok network ↔ network.toBlueprint = blueprint := by
  unfold Blueprint.check
  split
  · rename_i none
    constructor
    · intro same
      cases same
      rfl
    · intro same
      subst same
      rfl
  · rename_i fault rest found
    constructor
    · intro same
      cases same
    · intro same
      subst same
      rw [network.faultless] at found
      cases found

/-- The fault reported is the first one. -/
theorem Blueprint.check_eq_error_iff (blueprint : Blueprint) (fault : Fault) :
    blueprint.check = .error fault ↔ blueprint.faults.head? = some fault := by
  unfold Blueprint.check
  split <;> simp_all

namespace Network

/-- How many states a network has. -/
def stateCount (network : Network) : Nat := network.states.size

/-- How many rules a network has. -/
def ruleCount (network : Network) : Nat := network.rules.size

/-- How many transitions of a network are calls. -/
def callCount (network : Network) : Nat :=
  (network.states.toList.flatMap fun state => state.transitions.filter Transition.isCall).length

end Network

end TransitionNetworks
