import TransitionNetworks.Grammar

/-!
# The layout of a grammar as a network

The start and stop states of all rules come first, two for each rule, in the order of the rules.
Behind them lie the alternatives in reading order, each as a chain of basic states, one for the
place in front of every step and one for the place behind the last. A rule's start state leads to
the head of each of its chains, and the end of each chain leads to its stop state, by plain epsilon
steps. `Grammar.toNetwork` lays a resolved grammar out in this way.
-/

namespace TransitionNetworks

/-- The start state of the rule at a place. -/
def startState (rule : Nat) : Nat := 2 * rule

/-- The stop state of the rule at a place. -/
def stopState (rule : Nat) : Nat := 2 * rule + 1

/-- The transition that takes a step and ends in the next state of its chain. -/
def Step.transition (next : Nat) : Step Nat → Transition
  | consume matcher => .terminal matcher next
  | call rule => .call (startState rule) next rule
  | epsilon kind => .epsilon kind next

/-- The chain of states of an alternative that begins at `here` and leads to the stop state. -/
def chain (stop : Nat) (here : Nat) : Alternative Nat → List State
  | [] => [⟨.basic, [.epsilon .plain stop]⟩]
  | step :: rest => ⟨.basic, [step.transition (here + 1)]⟩ :: chain stop (here + 1) rest

/-- How many states the chain of an alternative has. -/
def chainLength (alternative : Alternative Nat) : Nat := alternative.length + 1

/-- Where the chains of consecutive alternatives begin, the first of them at `here`. -/
def chainHeads (here : Nat) : List (Alternative Nat) → List Nat
  | [] => []
  | alternative :: rest => here :: chainHeads (here + chainLength alternative) rest

/-- The chains of consecutive alternatives, the first of them at `here`. -/
def chains (stop : Nat) (here : Nat) : List (Alternative Nat) → List State
  | [] => []
  | alternative :: rest =>
    chain stop here alternative ++ chains stop (here + chainLength alternative) rest

/-- How many states the chains of consecutive alternatives have. -/
def chainsLength : List (Alternative Nat) → Nat
  | [] => 0
  | alternative :: rest => chainLength alternative + chainsLength rest

/-- How many states the chains of consecutive rules have. -/
def bodiesLength : List (Production Nat) → Nat
  | [] => 0
  | production :: rest => chainsLength production.alternatives + bodiesLength rest

/-- The start and stop states of consecutive rules, the first of them at the place `rule` and with
its first chain at `here`. -/
def boundaries (rule : Nat) (here : Nat) : List (Production Nat) → List State
  | [] => []
  | production :: rest =>
    ⟨.start rule, (chainHeads here production.alternatives).map (.epsilon .plain)⟩ ::
      ⟨.stop rule, []⟩ :: boundaries (rule + 1) (here + chainsLength production.alternatives) rest

/-- The chains of consecutive rules, the first of them at the place `rule` and with its first chain
at `here`. -/
def bodies (rule : Nat) (here : Nat) : List (Production Nat) → List State
  | [] => []
  | production :: rest =>
    chains (stopState rule) here production.alternatives ++
      bodies (rule + 1) (here + chainsLength production.alternatives) rest

/-- The names and boundary states of consecutive rules, the first of them at the place `rule`. -/
def ruleTable (rule : Nat) : List (Production Nat) → List Rule
  | [] => []
  | production :: rest =>
    ⟨production.name, startState rule, stopState rule⟩ :: ruleTable (rule + 1) rest

/-- The states and rules of a resolved grammar. -/
def layout (productions : List (Production Nat)) : Blueprint :=
  let firstChain := 2 * productions.length
  { states := (boundaries 0 firstChain productions ++ bodies 0 firstChain productions).toArray
    rules := (ruleTable 0 productions).toArray }

/-- The network of a grammar, or why there is none. -/
def Grammar.toNetwork (grammar : Grammar) : Except Fault Network :=
  grammar.resolve.bind fun productions => (layout productions).check

/-- A chain has the length that is computed for it. -/
@[simp] theorem length_chain (stop here : Nat) (alternative : Alternative Nat) :
    (chain stop here alternative).length = chainLength alternative := by
  induction alternative generalizing here with
  | nil => rfl
  | cons step rest ih => simp [chain, chainLength, ih]

/-- Chains in a row have the length that is computed for them. -/
@[simp] theorem length_chains (stop here : Nat) (alternatives : List (Alternative Nat)) :
    (chains stop here alternatives).length = chainsLength alternatives := by
  induction alternatives generalizing here with
  | nil => rfl
  | cons alternative rest ih => simp [chains, chainsLength, ih]

/-- Every rule has two boundary states. -/
@[simp] theorem length_boundaries (rule : Nat) (here : Nat)
    (productions : List (Production Nat)) :
    (boundaries rule here productions).length = 2 * productions.length := by
  induction productions generalizing rule here with
  | nil => rfl
  | cons production rest ih =>
    simp only [boundaries, List.length_cons, ih]
    omega

/-- The chains of all rules have the length that is computed for them. -/
@[simp] theorem length_bodies (rule : Nat) (here : Nat)
    (productions : List (Production Nat)) :
    (bodies rule here productions).length = bodiesLength productions := by
  induction productions generalizing rule here with
  | nil => rfl
  | cons production rest ih =>
    simp [bodies, bodiesLength, ih]

/-- Every production has a rule. -/
@[simp] theorem length_ruleTable (rule : Nat) (productions : List (Production Nat)) :
    (ruleTable rule productions).length = productions.length := by
  induction productions generalizing rule with
  | nil => rfl
  | cons production rest ih => simp [ruleTable, ih]

/-- A layout has two states for each rule and one more than its steps for each alternative. -/
theorem size_states_layout (productions : List (Production Nat)) :
    (layout productions).states.size =
      2 * productions.length + bodiesLength productions := by
  simp [layout]

end TransitionNetworks
