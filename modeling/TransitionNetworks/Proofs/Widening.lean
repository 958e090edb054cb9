import TransitionNetworks.Proofs.Acceptance
import TransitionNetworks.Proofs.Run.Counts

/-! # What a run owes to the transitions

A network is widened if its transitions get counterparts that lead to the same places for at least
the same tokens (`Network.Widens`); the order of the transitions, repetitions among them and the
sorts of epsilon steps play no part in that.

Two runs number their stacks differently, so their items are compared with the stack read as the
frame on top of it (`StackGraph.framed`). Whatever a run finds, the run of a wider network finds too
(`Findings.Finished.exists_framed`): the proof goes by the order of discovery in the narrower run,
and needs of the wider one only that it is finished, whatever its order of discovery. Hence no
statistic of a run becomes smaller when the network is widened, and networks that widen each other
have the same verdicts and the same statistics (`Network.recognition_of_widens`). -/

namespace TransitionNetworks

/-- **Counterparts.** A transition does at least the same as another one for some tokens. -/
inductive Transition.Counterpart (tokens : List Token) : Transition → Transition → Prop
  /-- Epsilon steps to the same target are alike, whatever their sorts. -/
  | epsilon (kind other : EpsilonKind) (target : Nat) :
      Counterpart tokens (.epsilon kind target) (.epsilon other target)
  /-- Only the same call is alike. -/
  | call (start follow rule : Nat) :
      Counterpart tokens (.call start follow rule) (.call start follow rule)
  /-- The matcher of a counterpart accepts at least the same of the tokens. -/
  | terminal {matcher other : Matcher} {target : Nat}
      (accepts : ∀ token ∈ tokens, matcher.accepts token = true → other.accepts token = true) :
      Counterpart tokens (.terminal matcher target) (.terminal other target)

instance (tokens : List Token) : ∀ transition counterpart : Transition,
    Decidable (transition.Counterpart tokens counterpart)
  | .epsilon kind target, .epsilon other target' =>
    if same : target = target' then .isTrue (same ▸ .epsilon kind other target)
    else .isFalse fun | .epsilon .. => same rfl
  | .terminal matcher target, .terminal other target' =>
    if same : target = target' ∧
        ∀ token ∈ tokens, matcher.accepts token = true → other.accepts token = true then
      .isTrue (same.1 ▸ .terminal same.2)
    else .isFalse fun | .terminal accepts => same ⟨rfl, accepts⟩
  | .call start follow rule, .call start' follow' rule' =>
    if same : start = start' ∧ follow = follow' ∧ rule = rule' then
      .isTrue (same.1 ▸ same.2.1 ▸ same.2.2 ▸ .call start follow rule)
    else .isFalse fun | .call .. => same ⟨rfl, rfl, rfl⟩
  | .epsilon .., .call .. => .isFalse nofun
  | .epsilon .., .terminal .. => .isFalse nofun
  | .call .., .epsilon .. => .isFalse nofun
  | .call .., .terminal .. => .isFalse nofun
  | .terminal .., .call .. => .isFalse nofun
  | .terminal .., .epsilon .. => .isFalse nofun

/-- A state is widened to one of the same kind that has a counterpart for every transition. -/
abbrev State.Widens (tokens : List Token) (state wider : State) : Prop :=
  wider.kind = state.kind ∧ ∀ transition ∈ state.transitions,
    ∃ counterpart ∈ wider.transitions, transition.Counterpart tokens counterpart

namespace Network

/-- **Wider networks.** The rules are the same, and there are as many states, each as wide as the
state with the same id at least. -/
structure Widens (network : Network) (tokens : List Token) (wider : Network) : Prop where
  /-- The rules are the same. -/
  rules : wider.rules = network.rules
  /-- The states are widened. -/
  states : List.Forall₂ (State.Widens tokens) network.states.toList wider.states.toList

variable {network wider : Network} {tokens : List Token}

/-- A state is still there in a wider network, where it is widened. -/
theorem Widens.exists_state? (widens : network.Widens tokens wider) {id : Nat} {state : State}
    (here : network.state? id = some state) :
    ∃ other, wider.state? id = some other ∧ state.Widens tokens other := by
  obtain ⟨length, all⟩ := List.forall₂_iff_get.1 widens.states
  obtain ⟨before, rfl⟩ := Array.getElem?_eq_some_iff.1 here
  have before' : id < wider.states.size := Nat.lt_of_lt_of_eq before length
  exact ⟨wider.states[id], Array.getElem?_eq_getElem before', all id before before'⟩

/-- The same rule stops in a state that is widened, if any. -/
theorem stopRule?_of_widens {state other : State} (widens : state.Widens tokens other) :
    other.stopRule? = state.stopRule? := by
  unfold State.stopRule?
  rw [widens.1]

/-- A state of a wider network offers a counterpart of all that it offers. -/
theorem Widens.offers (widens : network.Widens tokens wider) {id : Nat} {transition : Transition}
    (offers : network.Offers id transition) :
    ∃ counterpart, wider.Offers id counterpart ∧ transition.Counterpart tokens counterpart := by
  obtain ⟨state, here, goesOn, member⟩ := offers
  obtain ⟨other, there, wide⟩ := widens.exists_state? here
  obtain ⟨counterpart, member', counter⟩ := wide.2 transition member
  exact ⟨counterpart, ⟨other, there, (stopRule?_of_widens wide).trans goesOn, member'⟩, counter⟩

/-- A call is offered in a wider network as it is. -/
theorem Widens.offers_call (widens : network.Widens tokens wider) {id start follow rule : Nat}
    (offers : network.Offers id (.call start follow rule)) :
    wider.Offers id (.call start follow rule) := by
  obtain ⟨counterpart, offers', counter⟩ := widens.offers offers
  cases counter
  exact offers'

/-- Rules stop in a wider network where they stop in the narrower one. -/
theorem Widens.stopsIn (widens : network.Widens tokens wider) {rule id : Nat}
    (stops : network.StopsIn rule id) : wider.StopsIn rule id := by
  obtain ⟨state, here, stop⟩ := stops
  obtain ⟨other, there, wide⟩ := widens.exists_state? here
  exact ⟨other, there, (stopRule?_of_widens wide).trans stop⟩

/-- A wider network has the same rules at the same ids. -/
theorem Widens.rule?_eq (widens : network.Widens tokens wider) (id : Nat) :
    wider.rule? id = network.rule? id := by
  unfold Blueprint.rule?
  rw [widens.rules]

end Network

/-- An item with its stack read as the frame on top of it. -/
structure FramedItem where
  /-- The state. -/
  state : Nat
  /-- The position at which the innermost call began, or the first one outside all calls. -/
  origin : Nat
  /-- The innermost call under way, if there is one. -/
  frame : Option Frame

/-- Read the stack of an item as the frame on top of it. -/
def StackGraph.framed (graph : StackGraph) (item : Item) : FramedItem :=
  ⟨item.state, item.origin, graph.frame? item.stack⟩

@[simp] theorem StackGraph.framed_withState (graph : StackGraph) (item : Item) (state : Nat) :
    graph.framed (item.withState state) = { graph.framed item with state } := rfl

namespace Findings

variable {network wider : Network} {start : Nat} {input : List Token} {findings later : Findings}
  {position : Nat} {item : Item}

/-- Two items found that look the same with their frames are the same. -/
theorem Linked.eq_of_framed_eq (linked : findings.Linked network start input) {another : Item}
    (found : findings.Has position item) (found' : findings.Has position another)
    (same : findings.stackGraph.framed item = findings.stackGraph.framed another) :
    item = another := by
  obtain ⟨state, -, frame⟩ := FramedItem.mk.inj same
  exact linked.eq_of_has found found' state (linked.stack_eq_of_frame?_eq found found' frame)

/-- A finished run of a wider network has made every call of the items that it shares with the
narrower network. -/
theorem Finished.called (finished : later.Finished wider start input)
    (widens : network.Widens input wider) (found : later.Has position item)
    {id entry follow rule : Nat} (state : item.state = id)
    (offers : network.Offers id (.call entry follow rule)) :
    ∃ node, later.stackGraph.frame? node = some ⟨follow, rule, position⟩ ∧
      later.Has position ⟨entry, position, node⟩ ∧ item ∈ later.stackGraph.callers node := by
  subst state
  exact (finished.settled _ _ found).followed _ (widens.offers_call offers)

/-- **What a run finds, a finished run of a wider network finds too,** on a node with the same
frame. The induction is on the order of discovery: what the find refers to was found earlier, so the
wider run has found it, and since that run is finished it has gone on from there. -/
theorem Finished.exists_framed (finished : later.Finished wider start input)
    (widens : network.Widens input wider) (linked : findings.Linked network start input)
    (found : findings.Has position item) :
    ∃ another, later.Has position another ∧
      later.stackGraph.framed another = findings.stackGraph.framed item := by
  induction rank : findings.rank ⟨position, item⟩ using Nat.strongRecOn
    generalizing position item with
  | ind rank ih =>
  subst rank
  obtain ⟨why, member⟩ := linked.coherent.exists_find found
  have back : ∀ source ∈ why.sources position, ∃ another, later.Has source.position another ∧
      later.stackGraph.framed another = findings.stackGraph.framed source.item :=
    fun source isSource => ih _ (linked.earlier _ _ member source isSource)
      (linked.has_source member isSource) rfl
  cases linked.legal _ _ member with
  | seed => exact ⟨_, finished.seeded, rfl⟩
  | @epsilon _ target prev kind offers =>
    obtain ⟨prev', foundPrev, same⟩ := back _ (List.mem_cons_self ..)
    obtain ⟨state, -, -⟩ := FramedItem.mk.inj same
    obtain ⟨counterpart, offers', counter⟩ := widens.offers offers
    rw [← state] at offers'
    cases counter with
    | epsilon =>
      have next := (finished.settled _ _ foundPrev).followed _ offers'
      exact ⟨prev'.withState target, next, by simp [same]⟩
  | @scan position target prev matcher token offers read accepts =>
    obtain ⟨prev', foundPrev, same⟩ := back _ (List.mem_cons_self ..)
    obtain ⟨state, -, -⟩ := FramedItem.mk.inj same
    obtain ⟨counterpart, offers', counter⟩ := widens.offers offers
    rw [← state] at offers'
    cases counter with
    | @terminal _ other _ wide =>
      have accepts' := wide token (List.mem_of_getElem? read) accepts
      have next := finished.scanned _ _ _ foundPrev read other target offers' accepts'
      exact ⟨prev'.withState target, next, by simp [same]⟩
  | @predict _ entry follow rule node prev offers frame registered =>
    obtain ⟨prev', foundPrev, same⟩ := back _ (List.mem_cons_self ..)
    obtain ⟨state, -, -⟩ := FramedItem.mk.inj same
    obtain ⟨node', frame', entered, -⟩ := finished.called widens foundPrev state offers
    exact ⟨_, entered, by simp [StackGraph.framed, frame, frame']⟩
  | @complete _ stop caller frame stops frame? origin registered =>
    obtain ⟨stop', foundStop, sameStop⟩ := back _ (List.mem_cons_self ..)
    obtain ⟨caller', foundCaller, same⟩ :=
      back _ (List.mem_cons_of_mem _ (List.mem_cons_self ..))
    obtain ⟨state, -, -⟩ := FramedItem.mk.inj same
    obtain ⟨stateStop, -, frameStop⟩ := FramedItem.mk.inj sameStop
    -- the caller makes the same call in the wider run, so it is registered with the stop
    obtain ⟨called, entry, here, -, offers⟩ := linked.callers _ _ registered
    rw [frame?] at here
    cases here
    obtain ⟨node, frameNode, -, registered'⟩ := finished.called widens foundCaller state offers
    have top : later.stackGraph.frame? stop'.stack = some frame := frameStop.trans frame?
    have began : (⟨frame.follow, frame.rule, stop.origin⟩ : Frame) = frame := by rw [← origin]
    have sameNode : node = stop'.stack :=
      StackGraph.frame?_inj (frameNode.trans (congrArg some began)) top
    subst sameNode
    have stops' := widens.stopsIn stops
    rw [← stateStop] at stops'
    have returned := (finished.settled _ _ foundStop).returned frame top stops' _ registered'
    exact ⟨caller'.withState frame.follow, returned, by simp [same]⟩

/-- What a run finds outside all calls, a finished run of a wider network finds too. -/
theorem Finished.has_outside (finished : later.Finished wider start input)
    (widens : network.Widens input wider) (linked : findings.Linked network start input)
    {state : Nat} (found : findings.Has position ⟨state, 0, emptyStack⟩) :
    later.Has position ⟨state, 0, emptyStack⟩ := by
  obtain ⟨another, found', same⟩ := finished.exists_framed widens linked found
  obtain ⟨sameState, origin, frame⟩ := FramedItem.mk.inj same
  have outside := (finished.linked.frame?_eq_none_iff found').1 frame
  obtain ⟨_, _, _⟩ := another
  cases sameState
  cases origin
  cases outside
  exact found'

/-! ## The statistics of a wider network -/

/-- A position has at least as many items in a finished run of a wider network. -/
theorem Finished.countAt_le (finished : later.Finished wider start input)
    (widens : network.Widens input wider) (linked : findings.Linked network start input)
    (position : Nat) : findings.chart.countAt position ≤ later.chart.countAt position := by
  -- items are told apart by their frames, and every framed item is one of the wider run
  have nodup : ((findings.chart.itemsAt position).toList.map findings.stackGraph.framed).Nodup := by
    refine List.Nodup.map_on ?_ (findings.chart.itemsAt position).toList_nodup
    intro item found another found' same
    exact linked.eq_of_framed_eq found found' same
  have sub : (findings.chart.itemsAt position).toList.map findings.stackGraph.framed ⊆
      (later.chart.itemsAt position).toList.map later.stackGraph.framed := by
    intro framed member
    obtain ⟨item, found, rfl⟩ := List.mem_map.1 member
    obtain ⟨another, found', same⟩ := finished.exists_framed widens linked found
    exact List.mem_map.2 ⟨another, found', same⟩
  have length := (List.subperm_of_subset nodup sub).length_le
  rwa [List.length_map, List.length_map, Enumeration.length_toList,
    Enumeration.length_toList] at length

/-- A finished run of a wider network has at least as many nodes: a node has a caller, and the wider
run has found the caller and made its call. -/
theorem Finished.size_stackGraph_le (finished : later.Finished wider start input)
    (widens : network.Widens input wider) (linked : findings.Linked network start input) :
    findings.stackGraph.size ≤ later.stackGraph.size := by
  have sub : findings.stackGraph.frames.toList ⊆ later.stackGraph.frames.toList := by
    intro frame member
    obtain ⟨place, listed⟩ := Enumeration.mem_iff_exists_get?.1 member
    have here : findings.stackGraph.frame? (place + 1) = some frame := listed
    obtain ⟨caller, -, found, entry, offers⟩ := linked.exists_caller here
    obtain ⟨caller', found', same⟩ := finished.exists_framed widens linked found
    obtain ⟨state, -, -⟩ := FramedItem.mk.inj same
    obtain ⟨node, there, -, -⟩ := finished.called widens found' state offers
    cases node with
    | zero => cases there
    | succ place' => exact Enumeration.mem_iff_exists_get?.2 ⟨place', there⟩
  have length := (List.subperm_of_subset findings.stackGraph.frames.toList_nodup sub).length_le
  rw [Enumeration.length_toList, Enumeration.length_toList] at length
  have size : findings.stackGraph.size = findings.stackGraph.frames.size + 1 :=
    findings.stackGraph.size_nodes
  have size' : later.stackGraph.size = later.stackGraph.frames.size + 1 :=
    later.stackGraph.size_nodes
  omega

/-- The chart of a finished run of a wider network has at least as many positions. -/
theorem Finished.size_chart_le (finished : later.Finished wider start input)
    (widens : network.Widens input wider) (linked : findings.Linked network start input)
    (filled : findings.Filled) : findings.chart.size ≤ later.chart.size := by
  refine filled.size_le ?_
  intro position item found
  obtain ⟨another, found', -⟩ := finished.exists_framed widens linked found
  exact ⟨another, found'⟩

/-- The chart of a finished run of a wider network has at least as many items. -/
theorem Finished.itemCount_le (finished : later.Finished wider start input)
    (widens : network.Widens input wider) (linked : findings.Linked network start input)
    (filled : findings.Filled) : findings.chart.itemCount ≤ later.chart.itemCount := by
  have size := finished.size_chart_le widens linked filled
  rw [Chart.itemCount_eq_sum, Chart.itemCount_eq_sum]
  calc ∑ position ∈ Finset.range findings.chart.size, findings.chart.countAt position
      ≤ ∑ position ∈ Finset.range findings.chart.size, later.chart.countAt position :=
        Finset.sum_le_sum fun position _ => finished.countAt_le widens linked position
    _ ≤ ∑ position ∈ Finset.range later.chart.size, later.chart.countAt position :=
        Finset.sum_le_sum_of_subset (Finset.range_subset_range.2 size)

end Findings

/-- The statistics of a run do not become smaller when the network is widened. -/
theorem Recognition.statistics_le {network wider : Network} {start : Nat} {input : List Token}
    {narrow wide : Recognition} (finished : wide.findings.Finished wider start input)
    (widens : network.Widens input wider) (linked : narrow.findings.Linked network start input)
    (filled : narrow.findings.Filled) :
    narrow.statistics.positions ≤ wide.statistics.positions ∧
      narrow.statistics.items ≤ wide.statistics.items ∧
      narrow.statistics.stackNodes ≤ wide.statistics.stackNodes ∧
      narrow.statistics.provenances ≤ wide.statistics.provenances := by
  have items := finished.itemCount_le widens linked filled
  have provenances : narrow.findings.provenance.size ≤ wide.findings.provenance.size := by
    rw [linked.coherent.itemCount_eq.2, finished.linked.coherent.itemCount_eq.2]
    exact items
  exact ⟨finished.size_chart_le widens linked filled, items,
    finished.size_stackGraph_le widens linked, provenances⟩

/-- The statistics of two runs are the same if the networks widen each other. -/
theorem Recognition.statistics_eq {network wider : Network} {start : Nat} {input : List Token}
    {narrow wide : Recognition} (finished : narrow.findings.Finished network start input)
    (finished' : wide.findings.Finished wider start input) (filled : narrow.findings.Filled)
    (filled' : wide.findings.Filled) (widens : network.Widens input wider)
    (back : wider.Widens input network) : wide.statistics = narrow.statistics := by
  obtain ⟨positions, items, nodes, provenances⟩ :=
    statistics_le finished' widens finished.linked filled
  obtain ⟨positions', items', nodes', provenances'⟩ :=
    statistics_le finished back finished'.linked filled'
  simp only [statistics, RunStatistics.mk.injEq]
  exact ⟨Nat.le_antisymm positions' positions, Nat.le_antisymm items' items,
    Nat.le_antisymm nodes' nodes, Nat.le_antisymm provenances' provenances⟩

namespace Network

/-- **Verdicts are monotone in the transitions and blind to their order.** From a rule that exists
the runs of a network and of a wider one succeed. Every item of the narrower run has a counterpart
at the same position of the wider one, in the same state, with the same origin and with the same
frame, so what is accepted with the network is accepted with the wider one. If the networks widen
each other, the runs accept at the same place, if at all, and have the same statistics. -/
theorem recognition_of_widens {network wider : Network} {tokens : List Token}
    (widens : network.Widens (inputOf tokens) wider) {startRule : Nat} {rule : Rule}
    (known : network.rule? startRule = some rule) :
    ∃ narrow wide, network.recognition startRule tokens = .ok narrow ∧
      wider.recognition startRule tokens = .ok wide ∧
      (∀ position item, narrow.chart.contains position item = true →
        ∃ another, wide.chart.contains position another = true ∧
          wide.findings.stackGraph.framed another = narrow.findings.stackGraph.framed item ∧
          (another.stack = emptyStack ↔ item.stack = emptyStack)) ∧
      (narrow.isAccepted = true → wide.isAccepted = true) ∧
      (wider.Widens (inputOf tokens) network →
        wide.accepting = narrow.accepting ∧ wide.statistics = narrow.statistics) := by
  obtain ⟨narrow, ran, finished, filled, accepting⟩ := network.exists_recognition known tokens
  obtain ⟨wide, ran', finished', filled', accepting'⟩ :=
    wider.exists_recognition ((widens.rule?_eq startRule).trans known) tokens
  refine ⟨narrow, wide, ran, ran', ?_, ?_, ?_⟩
  · intro position item contains
    have found := (Findings.has_iff_contains _ _ _).2 contains
    obtain ⟨another, found', same⟩ := finished'.exists_framed widens finished.linked found
    refine ⟨another, (Findings.has_iff_contains _ _ _).1 found', same, ?_⟩
    obtain ⟨-, -, frame⟩ := FramedItem.mk.inj same
    rw [← finished.linked.frame?_eq_none_iff found, ← finished'.linked.frame?_eq_none_iff found',
      frame]
  · rw [Recognition.isAccepted, Recognition.isAccepted, accepting, accepting',
      Findings.isSome_acceptance?_iff, Findings.isSome_acceptance?_iff]
    rintro (behind | front)
    · exact Or.inl (finished'.has_outside widens finished.linked behind)
    · exact Or.inr (finished'.has_outside widens finished.linked front)
  · intro back
    -- both runs look for the same item, and one finds it where the other does
    have same : ∀ position, wide.findings.chart.contains position ⟨rule.stop, 0, emptyStack⟩ =
        narrow.findings.chart.contains position ⟨rule.stop, 0, emptyStack⟩ := by
      intro position
      rw [Bool.eq_iff_iff, ← Findings.has_iff_contains, ← Findings.has_iff_contains]
      exact ⟨finished.has_outside back finished'.linked,
        finished'.has_outside widens finished.linked⟩
    have accepts : wide.accepting = narrow.accepting := by
      rw [accepting, accepting', Findings.acceptance?, Findings.acceptance?]
      simp only [same]
    exact ⟨accepts, Recognition.statistics_eq finished finished' filled filled' widens back⟩

end Network

/-! ## A sample -/

/-- The sample whose rule goes through itself twice, with the transitions of its start turned
around, the call made twice, and an epsilon step of another sort. -/
def doublingTurned : Network where
  states :=
    #[⟨.start 0, [.epsilon .action 1, .terminal (.oneOf (.ofList [Token.endMarker, 7])) 1,
        .call 0 2 0, .call 0 2 0]⟩,
      ⟨.stop 0, []⟩,
      ⟨.basic, [.call 0 1 0]⟩]
  rules := #[⟨"S", 0, 1⟩]
  faultless := by decide

/-- The runs of the two samples on a seven accept at the same place and have the same statistics. -/
theorem Network.recognition_of_widens_doubling :
    ∃ recognition turned, doubling.recognition 0 [7] = .ok recognition ∧
      doublingTurned.recognition 0 [7] = .ok turned ∧
      turned.accepting = recognition.accepting ∧ turned.statistics = recognition.statistics := by
  have known : doubling.rule? 0 = some ⟨"S", 0, 1⟩ := rfl
  have widens : doubling.Widens (inputOf [7]) doublingTurned := ⟨rfl, by decide⟩
  have back : doublingTurned.Widens (inputOf [7]) doubling := ⟨rfl, by decide⟩
  obtain ⟨recognition, turned, ran, ran', -, -, alike⟩ := recognition_of_widens widens known
  obtain ⟨accepting, statistics⟩ := alike back
  exact ⟨recognition, turned, ran, ran', accepting, statistics⟩

end TransitionNetworks
