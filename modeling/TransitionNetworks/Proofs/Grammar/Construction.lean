import TransitionNetworks.Proofs.Grammar.Drafting
import TransitionNetworks.Proofs.Grammar.Resolution
import Mathlib.Algebra.GroupWithZero.Nat

/-! # The network that a grammar makes

A grammar makes a network if and only if it resolves, since the layout of resolved productions is
without faults (`faults_layout`). Whatever a transition of a layout names is there, for a simple
reason: in order, the heads of chains and what the transitions of chains name behind their own place
are the states of all chains, each named once (`count_targets_layout`). The remaining names are
those of start and stop states.

`Network.Represents` says how the network of a grammar looks, and `Grammar.toNetwork_spec` says when
there is one. -/

namespace TransitionNetworks

/-- The states that the transitions of states name, as often as they do. -/
def targets (states : List State) : List Nat :=
  states.flatMap fun state => state.transitions.flatMap Transition.references

/-- States in a row name the states that they name, in order. -/
theorem targets_append (states others : List State) :
    targets (states ++ others) = targets states ++ targets others :=
  List.flatMap_append

/-! ## Every state of a chain is named once -/

section Counting

variable {id count : Nat} (outside : 2 * count ≤ id)

include outside

/-- The transition of a step names the next state, and otherwise at most a start state. -/
theorem count_references_transition {step : Step Nat} (next : Nat)
    (called : ∀ callee ∈ [step].filterMap Step.callee?, callee < count) :
    (step.transition next).references.count id = [next].count id := by
  cases step with
  | consume matcher => rfl
  | call rule =>
    have bound : rule < count := called rule (List.mem_singleton_self rule)
    have apart : startState rule ≠ id := by
      unfold startState
      omega
    exact List.count_cons_of_ne apart
  | epsilon kind => rfl

/-- **A chain names its states behind the first,** each once, and otherwise only start and stop
states. -/
theorem count_targets_chain {rule : Nat} (here : Nat) {alternative : Alternative Nat}
    (known : rule < count)
    (called : ∀ callee ∈ alternative.filterMap Step.callee?, callee < count) :
    (targets (chain (stopState rule) here alternative)).count id =
      (List.range' (here + 1) alternative.length).count id := by
  induction alternative generalizing here with
  | nil =>
    have apart : stopState rule ≠ id := by
      unfold stopState
      omega
    exact List.count_eq_zero.2 fun member => apart (List.mem_singleton.1 member).symm
  | cons step rest ih =>
    have split : targets (chain (stopState rule) here (step :: rest)) =
        (step.transition (here + 1)).references ++
          targets (chain (stopState rule) (here + 1) rest) := by
      simp [targets, chain]
    have first := count_references_transition outside (here + 1) fun callee member =>
      called callee (((List.sublist_append_left [step] rest).filterMap _).subset member)
    have others := ih (here + 1) fun callee member =>
      called callee (((List.sublist_cons_self step rest).filterMap _).subset member)
    rw [split, List.count_append, first, others, ← List.count_append, List.length_cons,
      List.range'_succ, List.singleton_append]

/-- **Where chains begin and what they name** are all states of the chains, each once. -/
theorem count_targets_chains {rule : Nat} (here : Nat) {alternatives : List (Alternative Nat)}
    (known : rule < count)
    (called : ∀ callee ∈ alternatives.flatten.filterMap Step.callee?, callee < count) :
    (chainHeads here alternatives).count id +
        (targets (chains (stopState rule) here alternatives)).count id =
      (List.range' here (chainsLength alternatives)).count id := by
  induction alternatives generalizing here with
  | nil => rfl
  | cons alternative rest ih =>
    rw [List.flatten_cons, List.filterMap_append] at called
    have first := count_targets_chain outside here known fun callee member =>
      called callee (List.mem_append_left _ member)
    have others := ih (here + chainLength alternative) fun callee member =>
      called callee (List.mem_append_right _ member)
    have split : List.range' here (chainsLength (alternative :: rest)) =
        here :: List.range' (here + 1) alternative.length ++
          List.range' (here + chainLength alternative) (chainsLength rest) := by
      rw [chainsLength, ← List.range'_append_1, chainLength, List.range'_succ]
    rw [chainHeads, chains, targets_append, split, List.count_append, List.count_append, ← others,
      List.count_cons, List.count_cons, first]
    omega

/-- **Rules name the states of their chains,** each once, and otherwise only start and stop states.
-/
theorem count_targets_rules (rule here : Nat) {productions : List (Production Nat)}
    (known : rule + productions.length ≤ count)
    (called : ∀ callee ∈ callees productions, callee < count) :
    (targets (boundaries rule here productions ++ bodies rule here productions)).count id =
      (List.range' here (bodiesLength productions)).count id := by
  rw [targets_append, List.count_append]
  induction productions generalizing rule here with
  | nil => rfl
  | cons production rest ih =>
    have division : callees (production :: rest) =
        production.alternatives.flatten.filterMap Step.callee? ++ callees rest := by
      simp [callees]
    rw [division] at called
    rw [List.length_cons] at known
    have first := count_targets_chains outside here (by omega : rule < count)
      fun callee member => called callee (List.mem_append_left _ member)
    have others := ih (rule + 1) (here + chainsLength production.alternatives) (by omega)
      fun callee member => called callee (List.mem_append_right _ member)
    have heads : targets (boundaries rule here (production :: rest)) =
        chainHeads here production.alternatives ++
          targets (boundaries (rule + 1) (here + chainsLength production.alternatives) rest) := by
      simp [targets, boundaries, Transition.references, List.flatMap_map]
    rw [heads, bodies, targets_append, bodiesLength, ← List.range'_append_1]
    simp only [List.count_append]
    omega

end Counting

/-- **In a layout every state of a chain is named once.** -/
theorem count_targets_layout {productions : List (Production Nat)}
    (called : ∀ callee ∈ callees productions, callee < productions.length) {id : Nat}
    (outside : 2 * productions.length ≤ id) :
    (targets (layout productions).states.toList).count id =
      (List.range' (2 * productions.length) (bodiesLength productions)).count id := by
  rw [layout, List.toList_toArray]
  exact count_targets_rules outside 0 _ (Nat.le_of_eq (Nat.zero_add _)) called

/-! ## What stands where in a layout -/

/-- A state of a chain has one transition, and if that is a call, it enters its rule at the start.
-/
theorem exists_transition_of_mem_bodies {rule here : Nat} {productions : List (Production Nat)}
    {state : State} (member : state ∈ bodies rule here productions) :
    ∃ transition, state = ⟨.basic, [transition]⟩ ∧ ∀ start follow callee,
      transition = .call start follow callee → start = startState callee := by
  refine forall_mem_bodies (fun state => ∃ transition, state = ⟨.basic, [transition]⟩ ∧
    ∀ start follow callee, transition = .call start follow callee → start = startState callee)
    (fun stop => ⟨_, rfl, nofun⟩) ?_ rule here productions state member
  intro step next
  refine ⟨_, rfl, ?_⟩
  intro start follow callee calls
  cases step with
  | consume matcher => cases calls
  | call called =>
    cases calls
    rfl
  | epsilon kind => cases calls

/-- **What stands where.** A state with some id in the layout of productions. -/
inductive Stands (productions : List (Production Nat)) : Nat → State → Prop
  /-- A rule starts by plain epsilon transitions. -/
  | start {rule : Nat} {production : Production Nat} {heads : List Nat}
      (found : productions[rule]? = some production) :
      Stands productions (startState rule) ⟨.start rule, heads.map (.epsilon .plain)⟩
  /-- A rule stops without a transition. -/
  | stop {rule : Nat} {production : Production Nat} (found : productions[rule]? = some production) :
      Stands productions (stopState rule) ⟨.stop rule, []⟩
  /-- Behind the rules' start and stop states are those of chains, with a transition each. -/
  | chain {id : Nat} {transition : Transition} (behind : 2 * productions.length ≤ id)
      (entered : ∀ start follow callee, transition = .call start follow callee →
        start = startState callee) : Stands productions id ⟨.basic, [transition]⟩

/-- **What stands in a layout.** -/
theorem stands_of_layout {productions : List (Production Nat)} {id : Nat} {state : State}
    (here : (layout productions).state? id = some state) : Stands productions id state := by
  have laidOut := laidOut_layout productions
  by_cases before : id < 2 * productions.length
  · obtain ⟨rule, bound, rfl | rfl⟩ := exists_boundary before
    · obtain ⟨heads, starts, -⟩ := laidOut.start rule _ (List.getElem?_eq_getElem bound)
      rw [here] at starts
      cases starts
      exact .start (List.getElem?_eq_getElem bound)
    · have stops := laidOut.stop rule _ (List.getElem?_eq_getElem bound)
      rw [here] at stops
      cases stops
      exact .stop (List.getElem?_eq_getElem bound)
  · rw [state?_layout, if_neg before] at here
    obtain ⟨transition, rfl, entered⟩ :=
      exists_transition_of_mem_bodies (List.mem_of_getElem? here)
    exact .chain (Nat.le_of_not_lt before) entered

/-- **The states that a layout names are there.** -/
theorem exists_state?_of_mem_targets {productions : List (Production Nat)}
    (called : ∀ callee ∈ callees productions, callee < productions.length) {id : Nat}
    (member : id ∈ targets (layout productions).states.toList) :
    ∃ state, (layout productions).state? id = some state := by
  have inside : id < (layout productions).states.size := by
    rw [size_states_layout]
    by_cases before : id < 2 * productions.length
    · omega
    · -- behind the start and stop states only states of chains are named
      have named := List.count_pos_iff.2 member
      rw [count_targets_layout called (Nat.le_of_not_lt before)] at named
      exact (List.mem_range'_1.1 (List.count_pos_iff.1 named)).2
  exact ⟨_, Array.getElem?_eq_getElem inside⟩

/-- A transition of a layout that is a call calls what some production calls. -/
theorem mem_callees_of_call {productions : List (Production Nat)} {id : Nat} {state : State}
    (here : (layout productions).state? id = some state) {start follow rule : Nat}
    (calls : .call start follow rule ∈ state.transitions) : rule ∈ callees productions := by
  rw [← calledRules_layout, calledRules]
  refine List.mem_map.2 ⟨(follow, rule), List.mem_filterMap.2
    ⟨.call start follow rule, ?_, rfl⟩, rfl⟩
  exact List.mem_flatMap.2 ⟨state, Array.mem_toList_iff.2 (Array.mem_of_getElem? here), calls⟩

/-- **A layout is without faults,** if the rules called are there. -/
theorem faults_layout {productions : List (Production Nat)}
    (called : ∀ callee ∈ callees productions, callee < productions.length) :
    (layout productions).faults = [] := by
  have laidOut := laidOut_layout productions
  rw [Blueprint.faults_eq_nil_iff]
  constructor
  · intro id rule known
    rw [laidOut.rules] at known
    obtain ⟨production, found, rfl⟩ := Option.map_eq_some_iff.1 known
    obtain ⟨heads, starts, -⟩ := laidOut.start id production found
    rw [Blueprint.ruleFaults_eq_nil_iff, starts, laidOut.stop id production found]
    exact ⟨rfl, rfl⟩
  · intro id state here
    have listed : ∀ rule production, productions[rule]? = some production →
        (layout productions).rule? rule =
          some ⟨production.name, startState rule, stopState rule⟩ := by
      intro rule production found
      rw [laidOut.rules, found]
      rfl
    rw [Blueprint.stateFaults_eq_nil_iff]
    constructor
    · -- a state starts or stops the rule at whose place it stands
      intro rule kind
      cases stands_of_layout here with
      | start found =>
        cases kind
        exact ⟨_, listed _ _ found⟩
      | stop found =>
        cases kind
        exact ⟨_, listed _ _ found⟩
      | chain => cases kind
    · intro transition member
      rw [Blueprint.transitionFaults_eq_nil_iff]
      constructor
      · intro target named
        refine exists_state?_of_mem_targets called (List.mem_flatMap.2 ⟨state, ?_, ?_⟩)
        · exact Array.mem_toList_iff.2 (Array.mem_of_getElem? here)
        · exact List.mem_flatMap.2 ⟨transition, member, named⟩
      · intro start follow rule calls
        subst calls
        have bound := called rule (mem_callees_of_call here member)
        rw [listed rule _ (List.getElem?_eq_getElem bound)]
        cases stands_of_layout here with
        | start =>
          obtain ⟨_, -, isCall⟩ := List.mem_map.1 member
          cases isCall
        | stop => cases member
        | chain behind entered =>
          rw [entered start follow rule (List.mem_singleton.1 member).symm]
          rfl

/-! ## How the network of a grammar looks -/

/-- **Taking a step of a grammar.** The transition consumes by the matcher of the step, goes through
the rule with the name that the step calls, or is an epsilon transition of the same kind, and then
goes on to the next state. -/
inductive Step.TakenBy (network : Network) (next : Nat) : Step String → Transition → Prop
  /-- The same matcher. -/
  | consume (matcher : Matcher) : TakenBy network next (.consume matcher) (.terminal matcher next)
  /-- The rule with the name, from its start. -/
  | call {rule : Nat} {called : Rule} (known : network.rule? rule = some called) :
      TakenBy network next (.call called.name) (.call called.start next rule)
  /-- The same kind of epsilon step. -/
  | epsilon (kind : EpsilonKind) : TakenBy network next (.epsilon kind) (.epsilon kind next)

/-- **Reading an alternative back** from a state on: one step for each transition, and in the end a
plain epsilon transition to the stop state. -/
inductive Network.ReadsBack (network : Network) (stop : Nat) : Nat → Alternative String → Prop
  /-- Nothing is left to be read. -/
  | stop {here : Nat} (only : network.state? here = some ⟨.basic, [.epsilon .plain stop]⟩) :
      ReadsBack network stop here []
  /-- A step is read from the only transition of a state, and the others behind it. -/
  | step {here next : Nat} {step : Step String} {rest : Alternative String}
      {transition : Transition} (only : network.state? here = some ⟨.basic, [transition]⟩)
      (takes : step.TakenBy network next transition) (behind : ReadsBack network stop next rest) :
      ReadsBack network stop here (step :: rest)

/-- **The network of a grammar.** -/
structure Network.Represents (network : Network) (grammar : Grammar) : Prop where
  /-- There are as many rules as productions. -/
  ruleCount : network.ruleCount = grammar.productions.length
  /-- There are two states for a rule, and one more than its steps for an alternative. -/
  stateCount : network.stateCount = 2 * grammar.productions.length +
    ((grammar.productions.flatMap Production.alternatives).map fun steps => steps.length + 1).sum
  /-- Rules have their names and places. -/
  rules : ∀ rule production, grammar.productions[rule]? = some production →
    network.rule? rule = some ⟨production.name, 2 * rule, 2 * rule + 1⟩
  /-- A start state has a plain epsilon transition for each alternative in order, from the target of
  which the alternative is read back. -/
  start : ∀ rule production, grammar.productions[rule]? = some production → ∃ heads,
    network.state? (2 * rule) = some ⟨.start rule, heads.map (.epsilon .plain)⟩ ∧
      List.Forall₂ (fun alternative head => network.ReadsBack (2 * rule + 1) head alternative)
        production.alternatives heads
  /-- A stop state has no transition. -/
  stop : ∀ rule production, grammar.productions[rule]? = some production →
    network.state? (2 * rule + 1) = some ⟨.stop rule, []⟩
  /-- A basic state has one transition, and transitions name it once. -/
  basic : ∀ id state, network.state? id = some state → state.kind = .basic →
    (∃ transition, state.transitions = [transition]) ∧
      (targets network.states.toList).count id = 1

namespace Grammar

variable {grammar : Grammar} {network : Network} {productions : List (Production Nat)}

/-- The rules that a resolved grammar calls are there. -/
theorem callees_lt_of_resolve (resolved : grammar.resolve = .ok productions) :
    ∀ callee ∈ callees productions, callee < productions.length := by
  obtain ⟨unique, all⟩ := corresponds_of_resolve resolved
  intro callee member
  obtain ⟨name, -, found⟩ := exists_mem_of_forall₂ (forall₂_callees all).flip member
  obtain ⟨bound, -⟩ := List.getElem?_eq_some_iff.1 ((lookup_eq_ok_iff unique).1 found)
  rwa [names, List.length_map, all.length_eq] at bound

/-- **A grammar that resolves makes a network:** the layout of what it resolves to. -/
theorem exists_network (resolved : grammar.resolve = .ok productions) :
    ∃ network, grammar.toNetwork = .ok network ∧ network.toBlueprint = layout productions := by
  refine ⟨⟨layout productions, faults_layout (callees_lt_of_resolve resolved)⟩, ?_, rfl⟩
  rw [toNetwork, resolved]
  exact ((layout productions).check_eq_ok_iff _).2 rfl

/-- Making a network fails where resolving fails. -/
theorem fault?_toNetwork (grammar : Grammar) :
    fault? grammar.toNetwork = fault? grammar.resolve := by
  cases resolved : grammar.resolve with
  | error fault =>
    rw [toNetwork, resolved]
    rfl
  | ok productions =>
    obtain ⟨network, built, -⟩ := exists_network resolved
    rw [built]
    rfl

/-- The rule with a name that is called. -/
theorem rule?_of_lookup (resolved : grammar.resolve = .ok productions)
    (laidOut : LaidOut productions network.toBlueprint) {name : String} {rule : Nat}
    (found : grammar.lookup name = .ok rule) :
    network.rule? rule = some ⟨name, startState rule, stopState rule⟩ := by
  have named := (lookup_eq_ok_iff (corresponds_of_resolve resolved).1).1 found
  rw [← names_of_resolve resolved, List.getElem?_map] at named
  obtain ⟨production, here, rfl⟩ := Option.map_eq_some_iff.1 named
  rw [laidOut.rules, here]
  rfl

/-- **A chain reads back** the steps for which it was laid out. -/
theorem readsBack_of_hasChain (resolved : grammar.resolve = .ok productions)
    (laidOut : LaidOut productions network.toBlueprint) {stop here : Nat}
    {alternative : Alternative String} {image : Alternative Nat}
    (all : List.Forall₂ (Step.Corresponds fun name rule => grammar.lookup name = .ok rule)
      alternative image)
    (hasChain : network.HasChain stop here image) : network.ReadsBack stop here alternative := by
  induction all generalizing here with
  | nil => exact .stop hasChain
  | cons corresponds _ ih =>
    refine .step hasChain.1 ?_ (ih hasChain.2)
    cases corresponds with
    | consume matcher => exact .consume matcher
    | call found => exact .call (rule?_of_lookup resolved laidOut found)
    | epsilon kind => exact .epsilon kind

/-- Elements that are related by way of others are related. -/
theorem forall₂_of_forall₂ {α β γ : Type} {first : α → β → Prop} {second : β → γ → Prop}
    {both : α → γ → Prop} (compose : ∀ x y z, first x y → second y z → both x z) {list : List α}
    {between : List β} {others : List γ} (front : List.Forall₂ first list between)
    (back : List.Forall₂ second between others) : List.Forall₂ both list others := by
  induction front generalizing others with
  | nil =>
    cases back
    exact .nil
  | cons related _ ih =>
    cases back with
    | cons related' back => exact .cons (compose _ _ _ related related') (ih back)

/-- Chains have the lengths of the alternatives. -/
theorem bodiesLength_of_corresponds {rules : String → Nat → Prop}
    {productions : List (Production String)} {images : List (Production Nat)}
    (all : List.Forall₂ (Production.Corresponds rules) productions images) :
    bodiesLength images =
      ((productions.flatMap Production.alternatives).map fun steps => steps.length + 1).sum := by
  have inRule : ∀ (alternatives : List (Alternative String)) (others : List (Alternative Nat)),
      List.Forall₂ (List.Forall₂ (Step.Corresponds rules)) alternatives others →
        chainsLength others = (alternatives.map fun steps => steps.length + 1).sum := by
    intro alternatives others all
    induction all with
    | nil => rfl
    | cons steps _ ih =>
      rw [chainsLength, chainLength, ← steps.length_eq, ih, List.map_cons, List.sum_cons]
  induction all with
  | nil => rfl
  | cons corresponds _ ih =>
    rw [bodiesLength, inRule _ _ corresponds.alternatives, ih, List.flatMap_cons, List.map_append,
      List.sum_append]

/-- **The network that a grammar makes represents it.** -/
theorem represents_of_toNetwork (built : grammar.toNetwork = .ok network) :
    network.Represents grammar := by
  obtain ⟨productions, resolved, same⟩ := exists_resolved built
  obtain ⟨-, all⟩ := corresponds_of_resolve resolved
  have laidOut : LaidOut productions network.toBlueprint := same ▸ laidOut_layout productions
  have states : network.states = (layout productions).states := by rw [← same]
  have size := size_states_layout productions
  refine ⟨?_, ?_, ?_, ?_, ?_, ?_⟩
  · have rules : network.rules = (layout productions).rules := by rw [← same]
    rw [Network.ruleCount, rules, layout, List.size_toArray, length_ruleTable, all.length_eq]
  · rw [Network.stateCount, states, size, bodiesLength_of_corresponds all, all.length_eq]
  · intro rule production found
    obtain ⟨image, there, corresponds⟩ := exists_getElem?_of_forall₂ all found
    rw [laidOut.rules, there, ← corresponds.name]
    rfl
  · intro rule production found
    obtain ⟨image, there, corresponds⟩ := exists_getElem?_of_forall₂ all found
    obtain ⟨heads, starts, chains⟩ := laidOut.start rule image there
    refine ⟨heads, starts, ?_⟩
    refine forall₂_of_forall₂ ?_ corresponds.alternatives chains
    exact fun _ _ _ steps hasChain => readsBack_of_hasChain resolved laidOut steps hasChain
  · intro rule production found
    obtain ⟨image, there, -⟩ := exists_getElem?_of_forall₂ all found
    exact laidOut.stop rule image there
  · intro id state here basic
    have inLayout : (layout productions).state? id = some state := by rw [← same, here]
    cases stands_of_layout inLayout with
    | start => cases basic
    | stop => cases basic
    | chain behind =>
      refine ⟨⟨_, rfl⟩, ?_⟩
      obtain ⟨inside, -⟩ := Array.getElem?_eq_some_iff.1 inLayout
      rw [states, count_targets_layout (callees_lt_of_resolve resolved) behind]
      exact List.count_eq_one_of_mem List.nodup_range'
        (List.mem_range'_1.2 ⟨behind, size ▸ inside⟩)

/-- **A grammar makes a network if its names are different and the rules it calls are defined.** If
a name is repeated, making a network fails for the first name that stands in front of itself,
whatever is called. Otherwise it fails for the first rule in reading order that is called and not
defined, and otherwise not at all, so that no other fault is ever reported. The network represents
the grammar. Drawing the network state by state comes to the same. -/
theorem toNetwork_spec (grammar : Grammar) :
    grammar.build = grammar.toNetwork ∧
    (¬ grammar.names.Nodup ↔ ∃ name, grammar.toNetwork = .error (.duplicateRule name)) ∧
    (∀ name, grammar.toNetwork = .error (.duplicateRule name) ↔ ∃ front back,
      grammar.names = front ++ name :: back ∧ front.Nodup ∧ name ∈ front) ∧
    (∀ name, grammar.toNetwork = .error (.undefinedRule name) ↔ grammar.names.Nodup ∧
      ∃ front back, callees grammar.productions = front ++ name :: back ∧
        (∀ other ∈ front, other ∈ grammar.names) ∧ name ∉ grammar.names) ∧
    ((∃ network, grammar.toNetwork = .ok network) ↔
      grammar.names.Nodup ∧ ∀ name ∈ callees grammar.productions, name ∈ grammar.names) ∧
    (∀ fault, grammar.toNetwork = .error fault →
      ∃ name, fault = .duplicateRule name ∨ fault = .undefinedRule name) ∧
    ∀ network, grammar.toNetwork = .ok network → network.Represents grammar := by
  have faults := (fault?_toNetwork grammar).trans (fault?_resolve grammar)
  refine ⟨grammar.build_eq_toNetwork, ?_, fun name => ?_, fun name => ?_, ?_, fun fault => ?_,
    fun network => represents_of_toNetwork⟩
  · simp only [not_nodup_names_iff, ← fault?_eq_some_iff, faults]
    cases firstRepeated? grammar.names <;> cases grammar.firstUndefined? <;> simp
  · rw [← firstRepeated?_eq_some_iff, ← fault?_eq_some_iff, faults]
    cases firstRepeated? grammar.names <;> cases grammar.firstUndefined? <;> simp
  · rw [← firstUndefined?_eq_some_iff, ← firstRepeated?_eq_none_iff, ← fault?_eq_some_iff, faults]
    cases firstRepeated? grammar.names <;> cases grammar.firstUndefined? <;> simp
  · rw [← firstUndefined?_eq_none_iff, ← firstRepeated?_eq_none_iff, ← fault?_eq_none_iff, faults]
    cases firstRepeated? grammar.names <;> cases grammar.firstUndefined? <;> simp
  · intro reported
    rw [← fault?_eq_some_iff, faults] at reported
    cases repeated : firstRepeated? grammar.names with
    | some name =>
      rw [repeated] at reported
      exact ⟨name, .inl (Option.some.inj reported).symm⟩
    | none =>
      rw [repeated] at reported
      obtain ⟨name, -, rfl⟩ := Option.map_eq_some_iff.1 reported
      exact ⟨name, .inr rfl⟩

/-- Nested parentheses make a network with two states for the rule and six in its chains. A rule
defined twice is reported in front of one that is not defined. -/
theorem toNetwork_spec_nestedParens :
    (∃ network, Samples.nestedParens.toNetwork = .ok network ∧
      Samples.nestedParens.build = .ok network ∧
      network.Represents Samples.nestedParens ∧ network.stateCount = 8) ∧
    Grammar.toNetwork ⟨[⟨"A", [[.call "B"]]⟩, ⟨"A", []⟩]⟩ = .error (.duplicateRule "A") := by
  obtain ⟨drawn, -, -, -, builds, -, represents⟩ := toNetwork_spec Samples.nestedParens
  obtain ⟨-, -, duplicate, -⟩ := toNetwork_spec ⟨[⟨"A", [[.call "B"]]⟩, ⟨"A", []⟩]⟩
  obtain ⟨network, built⟩ := builds.2 (by decide)
  refine ⟨⟨network, built, drawn.trans built, represents network built, ?_⟩, ?_⟩
  · rw [(represents network built).stateCount]
    rfl
  · exact (duplicate "A").2 ⟨["A"], [], rfl, by decide, by decide⟩

end Grammar

end TransitionNetworks
