import TransitionNetworks.Proofs.Acceptance
import TransitionNetworks.Proofs.Bounds
import Mathlib.Data.List.TakeWhile

/-! # The situations of a run

A run can be inside a call, at a position, in a state (`Situation`). Which situations there are is
told by five rules and the moves of the network (`Reachable`), without any run. A finished run has
an item for each of them, on the node of its call, and no other items
(`Findings.Finished.reachable_iff`): the items are as many as the situations, and the nodes as many
as the calls.

So whoever can list the situations (`Inventory`) knows the statistics of the run and where it
accepts (`Network.exists_recognition_of_inventory`). -/

namespace TransitionNetworks

/-! ## The moves of a network

What the states of a network offer and where its rules stop, each as one list. For a network that is
given the lists can be computed, which leaves finitely many moves to look at. -/

/-- Tokens without an end marker are all in front of the first one. -/
theorem beforeEndMarker_eq_self {tokens : List Token} (inner : Token.endMarker ∉ tokens) :
    beforeEndMarker tokens = tokens := by
  refine List.takeWhile_eq_self_iff.2 ?_
  intro token member
  rw [Bool.not_eq_true', Bool.eq_false_iff, ne_eq, Token.isEndMarker_iff]
  rintro rfl
  exact inner member

/-- What can be done in the states of a network, sort by sort. -/
structure MoveTable where
  /-- Epsilon steps: the state and the target. -/
  epsilons : List (Nat × Nat)
  /-- Tokens: the state, what is consumed, and the target. -/
  terminals : List (Nat × Matcher × Nat)
  /-- Calls: the state, and where the call enters and goes on, and its rule. -/
  calls : List (Nat × Nat × Nat × Nat)
  /-- Stops: the rule that stops and the state in which it does. -/
  stops : List (Nat × Nat)
  deriving DecidableEq

namespace Network

variable {network : Network}

/-- The transitions that are offered, each with its state, in the order of the states. -/
def offered (network : Network) : List (Nat × Transition) :=
  network.states.toList.zipIdx.flatMap fun (state, id) =>
    if state.stopRule? = none then state.transitions.map (id, ·) else []

/-- The moves of a network. -/
def moveTable (network : Network) : MoveTable where
  epsilons := network.offered.filterMap fun
    | (state, .epsilon _ target) => some (state, target)
    | _ => none
  terminals := network.offered.filterMap fun
    | (state, .terminal matcher target) => some (state, matcher, target)
    | _ => none
  calls := network.offered.filterMap fun
    | (state, .call start follow rule) => some (state, start, follow, rule)
    | _ => none
  stops := network.states.toList.zipIdx.filterMap fun (state, id) => state.stopRule?.map (·, id)

/-- The states are listed with their ids. -/
theorem mem_zipIdx_states_iff (network : Network) (state : State) (id : Nat) :
    (state, id) ∈ network.states.toList.zipIdx ↔ network.state? id = some state := by
  rw [List.mem_zipIdx_iff_getElem?, Array.getElem?_toList]
  rfl

/-- What a state offers is listed with it. -/
theorem Offers.mem_offered {state : Nat} {transition : Transition}
    (offers : network.Offers state transition) : (state, transition) ∈ network.offered := by
  obtain ⟨here, found, goesOn, member⟩ := offers
  refine List.mem_flatMap.2 ⟨(here, state), (network.mem_zipIdx_states_iff ..).2 found, ?_⟩
  dsimp only
  rw [if_pos goesOn]
  exact List.mem_map_of_mem member

/-- What is listed with a state is offered by it. -/
theorem offers_of_mem_offered {state : Nat} {transition : Transition}
    (listed : (state, transition) ∈ network.offered) : network.Offers state transition := by
  obtain ⟨⟨here, id⟩, found, member⟩ := List.mem_flatMap.1 listed
  dsimp only at member
  by_cases goesOn : here.stopRule? = none
  · rw [if_pos goesOn] at member
    obtain ⟨_, member, same⟩ := List.mem_map.1 member
    cases same
    exact ⟨here, (network.mem_zipIdx_states_iff ..).1 found, goesOn, member⟩
  · rw [if_neg goesOn] at member
    exact absurd member List.not_mem_nil

/-- Epsilon steps are offered as they are listed. -/
theorem mem_epsilons_iff {state target : Nat} : (state, target) ∈ network.moveTable.epsilons ↔
    ∃ kind, network.Offers state (.epsilon kind target) := by
  constructor
  · intro listed
    obtain ⟨⟨_, transition⟩, member, same⟩ := List.mem_filterMap.1 listed
    cases transition <;> cases same
    exact ⟨_, offers_of_mem_offered member⟩
  · rintro ⟨kind, offers⟩
    exact List.mem_filterMap.2 ⟨_, offers.mem_offered, rfl⟩

/-- Transitions that consume a token are offered as they are listed. -/
theorem mem_terminals_iff {state target : Nat} {matcher : Matcher} :
    (state, matcher, target) ∈ network.moveTable.terminals ↔
      network.Offers state (.terminal matcher target) := by
  constructor
  · intro listed
    obtain ⟨⟨_, transition⟩, member, same⟩ := List.mem_filterMap.1 listed
    cases transition <;> cases same
    exact offers_of_mem_offered member
  · intro offers
    exact List.mem_filterMap.2 ⟨_, offers.mem_offered, rfl⟩

/-- Calls are offered as they are listed. -/
theorem mem_calls_iff {state start follow rule : Nat} :
    (state, start, follow, rule) ∈ network.moveTable.calls ↔
      network.Offers state (.call start follow rule) := by
  constructor
  · intro listed
    obtain ⟨⟨_, transition⟩, member, same⟩ := List.mem_filterMap.1 listed
    cases transition <;> cases same
    exact offers_of_mem_offered member
  · intro offers
    exact List.mem_filterMap.2 ⟨_, offers.mem_offered, rfl⟩

/-- Rules stop as is listed. -/
theorem mem_stops_iff {rule state : Nat} :
    (rule, state) ∈ network.moveTable.stops ↔ network.StopsIn rule state := by
  constructor
  · intro listed
    obtain ⟨⟨here, id⟩, found, listedStop⟩ := List.mem_filterMap.1 listed
    obtain ⟨_, stop, same⟩ := Option.map_eq_some_iff.1 listedStop
    cases same
    exact ⟨here, (network.mem_zipIdx_states_iff ..).1 found, stop⟩
  · rintro ⟨here, found, stop⟩
    refine List.mem_filterMap.2
      ⟨(here, state), (network.mem_zipIdx_states_iff ..).2 found, ?_⟩
    exact Option.map_eq_some_iff.2 ⟨rule, stop, rfl⟩

/-- A network that can be computed has the moves that can be computed with it. -/
theorem exists_of_moveTable {result : Except Fault Network} {startRule : Nat} {rule : Rule}
    {table : MoveTable} (computed : result.toOption.map (fun network =>
      (network.rule? startRule, network.moveTable)) = some (some rule, table)) :
    ∃ network, result = .ok network ∧ network.rule? startRule = some rule ∧
      network.moveTable = table := by
  cases result with
  | error fault => cases computed
  | ok network =>
    obtain ⟨known, isTable⟩ := Prod.mk.inj (Option.some.inj computed)
    exact ⟨network, rfl, known, isTable⟩

end Network

/-- Where a run can be. -/
structure Situation where
  /-- The innermost call under way, if there is one. -/
  call : Option Frame
  /-- The position. -/
  position : Nat
  /-- The state. -/
  state : Nat
  deriving DecidableEq

/-- **Situations that are reached** by moves from a start state on an input. A call is the same
whoever makes it, and goes on behind it for all who have made it. -/
inductive Reachable (table : MoveTable) (start : Nat) (input : List Token) : Situation → Prop
  /-- A run begins outside all calls. -/
  | seed : Reachable table start input ⟨none, 0, start⟩
  /-- An epsilon step changes the state only. -/
  | epsilon {call : Option Frame} {position state target : Nat}
      (reached : Reachable table start input ⟨call, position, state⟩)
      (move : (state, target) ∈ table.epsilons) :
      Reachable table start input ⟨call, position, target⟩
  /-- A token is consumed. -/
  | scan {call : Option Frame} {position state target : Nat} {matcher : Matcher} {token : Token}
      (reached : Reachable table start input ⟨call, position, state⟩)
      (move : (state, matcher, target) ∈ table.terminals)
      (read : input[position]? = some token) (accepts : matcher.accepts token = true) :
      Reachable table start input ⟨call, position + 1, target⟩
  /-- A call is entered. -/
  | predict {call : Option Frame} {position state entry follow rule : Nat}
      (reached : Reachable table start input ⟨call, position, state⟩)
      (move : (state, entry, follow, rule) ∈ table.calls) :
      Reachable table start input ⟨some ⟨follow, rule, position⟩, position, entry⟩
  /-- A call is over, and those who have made it go on behind it. -/
  | complete {call : Option Frame} {position stop began state entry follow rule : Nat}
      (stopped : Reachable table start input ⟨some ⟨follow, rule, began⟩, position, stop⟩)
      (stops : (rule, stop) ∈ table.stops)
      (called : Reachable table start input ⟨call, began, state⟩)
      (move : (state, entry, follow, rule) ∈ table.calls) :
      Reachable table start input ⟨call, position, follow⟩

/-- A token is consumed where it alone is let through. -/
theorem Reachable.scan_token {table : MoveTable} {start : Nat} {input : List Token}
    {call : Option Frame} {position state target : Nat} {token : Token}
    (reached : Reachable table start input ⟨call, position, state⟩)
    (read : input[position]? = some token)
    (move : (state, .oneOf (.ofList [token]), target) ∈ table.terminals) :
    Reachable table start input ⟨call, position + 1, target⟩ :=
  reached.scan move read (by simp)

/-- The situation of an item, whose stack is read as the frame on top of it. -/
def StackGraph.situation (graph : StackGraph) (place : Place) : Situation :=
  ⟨graph.frame? place.item.stack, place.position, place.item.state⟩

/-- An item is in a situation at its position if call and state are those of the situation. -/
theorem StackGraph.situation_eq_iff (graph : StackGraph) (situation : Situation) (item : Item) :
    graph.situation ⟨situation.position, item⟩ = situation ↔
      graph.frame? item.stack = situation.call ∧ item.state = situation.state := by
  obtain ⟨call, position, state⟩ := situation
  simp [StackGraph.situation]

namespace Findings

variable {network : Network} {start : Nat} {input : List Token} {findings : Findings}
  {position : Nat} {item : Item}

/-- Whatever is found is reached. The induction is on the order of discovery. -/
theorem Linked.reachable (linked : findings.Linked network start input)
    (found : findings.Has position item) :
    Reachable network.moveTable start input (findings.stackGraph.situation ⟨position, item⟩) := by
  induction rank : findings.rank ⟨position, item⟩ using Nat.strongRecOn
    generalizing position item with
  | ind rank ih =>
  subst rank
  obtain ⟨why, member⟩ := linked.coherent.exists_find found
  have back : ∀ source ∈ why.sources position,
      Reachable network.moveTable start input (findings.stackGraph.situation source) :=
    fun source isSource => ih _ (linked.earlier _ _ member source isSource)
      (linked.has_source member isSource) rfl
  cases linked.legal _ _ member with
  | seed => exact .seed
  | epsilon offers =>
    have prev := back _ (List.mem_cons_self ..)
    exact .epsilon prev (Network.mem_epsilons_iff.2 ⟨_, offers⟩)
  | scan offers read accepts =>
    have prev := back _ (List.mem_cons_self ..)
    exact .scan prev (Network.mem_terminals_iff.2 offers) read accepts
  | predict offers frame registered =>
    have prev := back _ (List.mem_cons_self ..)
    rw [StackGraph.situation, frame]
    exact .predict prev (Network.mem_calls_iff.2 offers)
  | complete stops frame? origin registered =>
    have stopped := back _ (List.mem_cons_self ..)
    have called := back _ (List.mem_cons_of_mem _ (List.mem_cons_self ..))
    obtain ⟨-, entry, offers⟩ := linked.caller frame? registered
    rw [StackGraph.situation, frame?] at stopped
    rw [StackGraph.situation, ← origin] at called
    exact .complete stopped (Network.mem_stops_iff.2 stops) called (Network.mem_calls_iff.2 offers)

/-- Whatever is reached is found in a finished run. The induction is on the rules: an item that is
found is settled and has led across its token. -/
theorem Finished.exists_has (finished : findings.Finished network start input)
    {situation : Situation} (reached : Reachable network.moveTable start input situation) :
    ∃ item, findings.Has situation.position item ∧
      findings.stackGraph.situation ⟨situation.position, item⟩ = situation := by
  simp only [StackGraph.situation_eq_iff]
  induction reached with
  | seed => exact ⟨_, finished.seeded, rfl, rfl⟩
  | @epsilon call position state target _ move ih =>
    dsimp only at ih ⊢
    obtain ⟨item, found, call, rfl⟩ := ih
    obtain ⟨kind, offers⟩ := Network.mem_epsilons_iff.1 move
    exact ⟨item.withState target, (finished.settled _ _ found).followed _ offers, call, rfl⟩
  | @scan call position state target matcher token _ move read accepts ih =>
    dsimp only at ih ⊢
    obtain ⟨item, found, call, rfl⟩ := ih
    have offers := Network.mem_terminals_iff.1 move
    exact ⟨item.withState target,
      finished.scanned _ _ _ found read matcher target offers accepts, call, rfl⟩
  | @predict call position state entry follow rule _ move ih =>
    dsimp only at ih ⊢
    obtain ⟨item, found, -, rfl⟩ := ih
    have offers := Network.mem_calls_iff.1 move
    obtain ⟨node, here, entered, -⟩ := (finished.settled _ _ found).followed _ offers
    exact ⟨_, entered, here, rfl⟩
  | @complete call position stop began state entry follow rule _ stop _ move ihStopped ihCalled =>
    dsimp only at ihStopped ihCalled ⊢
    obtain ⟨stopped, foundStop, there, rfl⟩ := ihStopped
    obtain ⟨caller, foundCaller, call, rfl⟩ := ihCalled
    have stops := Network.mem_stops_iff.1 stop
    have offers := Network.mem_calls_iff.1 move
    -- the caller is registered on the node of its call, which is the node of the stop
    obtain ⟨node, here, -, registered⟩ := (finished.settled _ _ foundCaller).followed _ offers
    have sameNode := StackGraph.frame?_inj here there
    subst sameNode
    exact ⟨caller.withState follow,
      (finished.settled _ _ foundStop).returned _ there stops _ registered, call, rfl⟩

/-- **A finished run has found what is reached,** and nothing else. -/
theorem Finished.reachable_iff (finished : findings.Finished network start input)
    (situation : Situation) :
    Reachable network.moveTable start input situation ↔
      ∃ item, findings.Has situation.position item ∧
        findings.stackGraph.situation ⟨situation.position, item⟩ = situation := by
  constructor
  · exact finished.exists_has
  · rintro ⟨item, found, same⟩
    rw [← same]
    exact finished.linked.reachable found

/-- Different places found are different situations. -/
theorem Linked.eq_of_situation_eq (linked : findings.Linked network start input)
    {place other : Place} (found : findings.Has place.position place.item)
    (found' : findings.Has other.position other.item)
    (same : findings.stackGraph.situation place = findings.stackGraph.situation other) :
    place = other := by
  obtain ⟨call, position, state⟩ := Situation.mk.inj same
  have item := linked.eq_of_has found found' state
    (linked.stack_eq_of_frame?_eq found found' call)
  obtain ⟨_, _⟩ := place
  obtain ⟨_, _⟩ := other
  simp only [Place.mk.injEq]
  exact ⟨position, item⟩

/-- A finished run has a node for each call that is reached. -/
theorem Finished.exists_node_iff (finished : findings.Finished network start input)
    (frame : Frame) :
    (∃ node, findings.stackGraph.frame? node = some frame) ↔
      ∃ position state, Reachable network.moveTable start input ⟨some frame, position, state⟩ := by
  constructor
  · rintro ⟨node, here⟩
    obtain ⟨caller, -, found, entry, offers⟩ := finished.linked.exists_caller here
    exact ⟨_, _, .predict (finished.linked.reachable found) (Network.mem_calls_iff.2 offers)⟩
  · rintro ⟨position, state, reached⟩
    obtain ⟨item, -, same⟩ := finished.exists_has reached
    exact ⟨item.stack, ((StackGraph.situation_eq_iff ..).1 same).1⟩

end Findings

/-- **An inventory** of what is reached by moves from a start state on an input. -/
structure Inventory (table : MoveTable) (start : Nat) (input : List Token) where
  /-- All situations, each once. -/
  situations : List Situation
  /-- No situation is listed twice. -/
  nodup : situations.Nodup
  /-- The situations listed are those that are reached. -/
  mem_iff : ∀ situation, situation ∈ situations ↔ Reachable table start input situation
  /-- The calls of these situations, each once. -/
  calls : List (Option Frame)
  /-- No call is listed twice. -/
  nodup_calls : calls.Nodup
  /-- The calls listed are those in which some situation is. -/
  mem_calls_iff : ∀ call, call ∈ calls ↔ ∃ situation ∈ situations, situation.call = call
  /-- How many positions have a situation. -/
  positions : Nat
  /-- These are the first positions. -/
  lt_positions_iff : ∀ position, position < positions ↔
    ∃ situation ∈ situations, situation.position = position

namespace Inventory

variable {network : Network} {start : Nat} {input : List Token} {findings : Findings}

/-- A finished run has as many items as there are situations. -/
theorem itemCount_eq (inventory : Inventory network.moveTable start input)
    (finished : findings.Finished network start input) :
    findings.chart.itemCount = inventory.situations.length := by
  have linked := finished.linked
  have nodup : ((findings.finds.map Prod.fst).map findings.stackGraph.situation).Nodup := by
    refine List.Nodup.map_on ?_ linked.coherent.nodup
    intro place member other member' same
    exact linked.eq_of_situation_eq (linked.coherent.has_iff.2 member)
      (linked.coherent.has_iff.2 member') same
  have same : ∀ situation,
      situation ∈ (findings.finds.map Prod.fst).map findings.stackGraph.situation ↔
        situation ∈ inventory.situations := by
    intro situation
    rw [inventory.mem_iff, finished.reachable_iff, List.mem_map]
    constructor
    · rintro ⟨place, member, rfl⟩
      exact ⟨place.item, linked.coherent.has_iff.2 member, rfl⟩
    · rintro ⟨item, found, same⟩
      exact ⟨_, linked.coherent.has_iff.1 found, same⟩
  have length := ((List.perm_ext_iff_of_nodup nodup inventory.nodup).2 same).length_eq
  rw [linked.coherent.itemCount_eq.1, ← length, List.length_map, List.length_map]

/-- A finished run has as many nodes as there are calls, where the empty stack is the node of what
is outside all calls. -/
theorem size_stackGraph_eq (inventory : Inventory network.moveTable start input)
    (finished : findings.Finished network start input) :
    findings.stackGraph.size = inventory.calls.length := by
  have nodup : (none :: findings.stackGraph.frames.toList.map some).Nodup := by
    refine List.nodup_cons.2 ⟨by simp, findings.stackGraph.frames.toList_nodup.map ?_⟩
    exact Option.some_injective Frame
  have same : ∀ call, call ∈ none :: findings.stackGraph.frames.toList.map some ↔
      call ∈ inventory.calls := by
    intro call
    rw [inventory.mem_calls_iff]
    simp only [inventory.mem_iff]
    cases call with
    | none => exact iff_of_true (List.mem_cons_self ..) ⟨_, .seed, rfl⟩
    | some frame =>
      have node : some frame ∈ none :: findings.stackGraph.frames.toList.map some ↔
          ∃ node, findings.stackGraph.frame? node = some frame := by
        simp only [List.mem_cons, reduceCtorEq, false_or, List.mem_map, Option.some.injEq,
          exists_eq_right, Enumeration.mem_toList]
        rw [Enumeration.mem_iff_exists_get?]
        constructor
        · rintro ⟨place, listed⟩
          exact ⟨place + 1, listed⟩
        · rintro ⟨node, here⟩
          cases node with
          | zero => cases here
          | succ place => exact ⟨place, here⟩
      rw [node, finished.exists_node_iff]
      constructor
      · rintro ⟨position, state, reached⟩
        exact ⟨_, reached, rfl⟩
      · rintro ⟨⟨_, position, state⟩, reached, rfl⟩
        exact ⟨position, state, reached⟩
  have length := ((List.perm_ext_iff_of_nodup nodup inventory.nodup_calls).2 same).length_eq
  have size : findings.stackGraph.size = findings.stackGraph.frames.size + 1 :=
    findings.stackGraph.size_nodes
  rw [size, ← length, List.length_cons, List.length_map, Enumeration.length_toList]

/-- The chart of a finished run has as many positions as have a situation. -/
theorem size_chart_eq (inventory : Inventory network.moveTable start input)
    (finished : findings.Finished network start input) (filled : findings.Filled) :
    findings.chart.size = inventory.positions := by
  have same : ∀ position, position < findings.chart.size ↔ position < inventory.positions := by
    intro position
    rw [finished.linked.lt_size_iff filled, inventory.lt_positions_iff]
    simp only [inventory.mem_iff]
    constructor
    · rintro ⟨item, found⟩
      exact ⟨_, finished.linked.reachable found, rfl⟩
    · rintro ⟨situation, reached, rfl⟩
      obtain ⟨item, found, -⟩ := finished.exists_has reached
      exact ⟨item, found⟩
  have le := same findings.chart.size
  have ge := same inventory.positions
  omega

/-- An item outside all calls is found if its situation is listed. -/
theorem has_outside_iff (inventory : Inventory network.moveTable start input)
    (finished : findings.Finished network start input) (position state : Nat) :
    findings.Has position ⟨state, 0, emptyStack⟩ ↔
      ⟨none, position, state⟩ ∈ inventory.situations := by
  rw [inventory.mem_iff]
  constructor
  · exact finished.linked.reachable
  · intro reached
    obtain ⟨item, found, same⟩ := finished.exists_has reached
    obtain ⟨call, rfl⟩ := (StackGraph.situation_eq_iff ..).1 same
    have outside := (finished.linked.frame?_eq_none_iff found).1 call
    -- outside all calls items begin at the first position
    rcases finished.linked.placed _ _ found with ⟨-, began⟩ | ⟨frame, here, -⟩
    · rwa [← began, ← outside]
    · rw [outside] at here
      cases here

end Inventory

/-- **An inventory tells how a run ends.** From a rule that exists a run succeeds. It accepts where
the inventory lists that the rule stops outside all calls, behind the end marker if it can and
otherwise in front of it, and its statistics are the lengths of the inventory. -/
theorem Network.exists_recognition_of_inventory {network : Network} {startRule : Nat} {rule : Rule}
    (known : network.rule? startRule = some rule) {table : MoveTable}
    (isTable : network.moveTable = table)
    (tokens : List Token) (inventory : Inventory table rule.start (inputOf tokens)) :
    ∃ recognition, network.recognition startRule tokens = .ok recognition ∧
      recognition.accepting =
        (if ⟨none, (beforeEndMarker tokens).length + 1, rule.stop⟩ ∈ inventory.situations then
          some ⟨(beforeEndMarker tokens).length + 1, ⟨rule.stop, 0, emptyStack⟩⟩
        else if ⟨none, (beforeEndMarker tokens).length, rule.stop⟩ ∈ inventory.situations then
          some ⟨(beforeEndMarker tokens).length, ⟨rule.stop, 0, emptyStack⟩⟩
        else none) ∧
      recognition.statistics = ⟨inventory.positions, inventory.situations.length,
        inventory.calls.length, inventory.situations.length⟩ := by
  classical
  subst isTable
  obtain ⟨recognition, ran, finished, filled, accepting⟩ := network.exists_recognition known tokens
  refine ⟨recognition, ran, ?_, ?_⟩
  · rw [accepting, Findings.acceptance?_eq]
    simp only [inventory.has_outside_iff finished]
  · have items := inventory.itemCount_eq finished
    have provenances := finished.linked.coherent.itemCount_eq.2
    rw [Recognition.statistics, provenances, items, inventory.size_chart_eq finished filled,
      inventory.size_stackGraph_eq finished]

/-- If the inventory ends where the tokens do, and lists there that the rule stops outside all
calls, then the run accepts in front of the end marker. -/
theorem Network.exists_recognition_of_stops {network : Network} {startRule : Nat} {rule : Rule}
    (known : network.rule? startRule = some rule) {table : MoveTable}
    (isTable : network.moveTable = table)
    {tokens : List Token} (inner : Token.endMarker ∉ tokens)
    (inventory : Inventory table rule.start (inputOf tokens))
    (ends : inventory.positions = tokens.length + 1)
    (stops : ⟨none, tokens.length, rule.stop⟩ ∈ inventory.situations) :
    ∃ recognition, network.recognition startRule tokens = .ok recognition ∧
      recognition.accepting = some ⟨tokens.length, ⟨rule.stop, 0, emptyStack⟩⟩ ∧
      recognition.statistics = ⟨inventory.positions, inventory.situations.length,
        inventory.calls.length, inventory.situations.length⟩ := by
  obtain ⟨recognition, ran, accepting, statistics⟩ :=
    exists_recognition_of_inventory known isTable tokens inventory
  have nothing : ⟨none, tokens.length + 1, rule.stop⟩ ∉ inventory.situations := by
    intro listed
    have inside := (inventory.lt_positions_iff _).2 ⟨_, listed, rfl⟩
    rw [ends] at inside
    exact Nat.lt_irrefl _ inside
  rw [beforeEndMarker_eq_self inner, if_neg nothing, if_pos stops] at accepting
  exact ⟨recognition, ran, accepting, statistics⟩

end TransitionNetworks
