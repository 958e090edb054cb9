import TransitionNetworks.Proofs.Language
import TransitionNetworks.Proofs.Run.History

/-! # How the findings of a run hang together

A run makes two sorts of steps: closing steps at a position (`ClosingStep`) and scanning steps into
the next one (`ScanningStep`). They keep findings linked (`Findings.Linked`): every place was found
by a legal step (`Legal`) from places found earlier, an item outside all calls begins at the first
position and any other where the call on its stack began, and the callers and empty returns of a
node are items found where its call began. -/

namespace TransitionNetworks

/-- The places that a provenance refers to, as seen from the position of the find. -/
def Provenance.sources (position : Nat) : Provenance → List Place
  | seed => []
  | epsilon prev => [⟨position, prev⟩]
  | predict prev _ => [⟨position, prev⟩]
  | complete stop caller _ => [⟨position, stop⟩, ⟨stop.origin, caller⟩]
  | scan prev _ => [⟨position - 1, prev⟩]

/-- **Legal finds.** How a network that starts in a state and reads an input may come to an item at
a place, given the stacks. -/
inductive Legal (network : Network) (start : Nat) (input : List Token) (graph : StackGraph) :
    Place → Provenance → Prop
  /-- A run begins in the start state, outside all calls. -/
  | seed : Legal network start input graph ⟨0, ⟨start, 0, emptyStack⟩⟩ .seed
  /-- An epsilon step changes the state only. -/
  | epsilon {position target : Nat} {prev : Item} {kind : EpsilonKind}
      (offers : network.Offers prev.state (.epsilon kind target)) :
      Legal network start input graph ⟨position, prev.withState target⟩ (.epsilon prev)
  /-- A rule is entered on the node of the call, with which the caller is registered. -/
  | predict {position entry follow rule node : Nat} {prev : Item}
      (offers : network.Offers prev.state (.call entry follow rule))
      (frame : graph.frame? node = some ⟨follow, rule, position⟩)
      (registered : prev ∈ graph.callers node) :
      Legal network start input graph ⟨position, ⟨entry, position, node⟩⟩ (.predict prev rule)
  /-- Any caller of a node goes on when a rule stops that was called there. -/
  | complete {position : Nat} {stop caller : Item} {frame : Frame}
      (stops : network.StopsIn frame.rule stop.state)
      (frame? : graph.frame? stop.stack = some frame) (origin : frame.position = stop.origin)
      (registered : caller ∈ graph.callers stop.stack) :
      Legal network start input graph ⟨position, caller.withState frame.follow⟩
        (.complete stop caller frame.rule)
  /-- A token is consumed at its position. -/
  | scan {position target : Nat} {prev : Item} {matcher : Matcher} {token : Token}
      (offers : network.Offers prev.state (.terminal matcher target))
      (read : input[position]? = some token) (accepts : matcher.accepts token = true) :
      Legal network start input graph ⟨position + 1, prev.withState target⟩ (.scan prev position)

/-- A find that is legal stays so when the stacks grow. -/
theorem Legal.mono {network : Network} {start : Nat} {input : List Token}
    {graph later : StackGraph} {place : Place} {why : Provenance}
    (frames : ∀ node frame, graph.frame? node = some frame → later.frame? node = some frame)
    (callers : ∀ node caller, caller ∈ graph.callers node → caller ∈ later.callers node)
    (legal : Legal network start input graph place why) :
    Legal network start input later place why := by
  cases legal with
  | seed => exact .seed
  | epsilon offers => exact .epsilon offers
  | predict offers frame registered =>
    exact .predict offers (frames _ _ frame) (callers _ _ registered)
  | complete stops frame? origin registered =>
    exact .complete stops (frames _ _ frame?) origin (callers _ _ registered)
  | scan offers read accepts => exact .scan offers read accepts

/-- **Steps that close a position.** Each goes on from an item found there. -/
inductive ClosingStep (network : Network) (position : Nat) : Findings → Findings → Prop
  /-- A call is entered. -/
  | predict {findings : Findings} {item : Item} {start follow rule : Nat}
      (found : findings.Has position item)
      (offers : network.Offers item.state (.call start follow rule)) :
      ClosingStep network position findings (findings.predict position start follow rule item)
  /-- An epsilon step is taken. -/
  | epsilon {findings : Findings} {item : Item} {kind : EpsilonKind} {target : Nat}
      (found : findings.Has position item)
      (offers : network.Offers item.state (.epsilon kind target)) :
      ClosingStep network position findings
        (findings.discover position (item.withState target) (.epsilon item))
  /-- A rule stops. -/
  | complete {findings : Findings} {stop : Item} {rule : Nat}
      (found : findings.Has position stop) (stops : network.StopsIn rule stop.state) :
      ClosingStep network position findings (findings.complete position stop rule)

/-- **Steps that scan a token.** Each goes on from an item found in front of the token. -/
inductive ScanningStep (network : Network) (position : Nat) (token : Token) :
    Findings → Findings → Prop
  /-- The token is consumed. -/
  | scan {findings : Findings} {item : Item} {matcher : Matcher} {target : Nat}
      (found : findings.Has position item)
      (offers : network.Offers item.state (.terminal matcher target))
      (accepts : matcher.accepts token = true) :
      ScanningStep network position token findings
        (findings.discover (position + 1) (item.withState target) (.scan item position))

/-- Findings grow when a position is closed. -/
theorem ClosingStep.grows {network : Network} {position : Nat} {findings later : Findings}
    (step : ClosingStep network position findings later) : findings.Extends later := by
  cases step with
  | predict => exact Findings.extends_predict _ _ _ _ _ _
  | epsilon => exact Findings.extends_discover _ _ _ _
  | complete => exact Findings.extends_complete _ _ _ _

/-- **What a closing step comes to** is finding items at its position, changing the stacks and
noting a stop that is left aside, so it preserves whatever these preserve. -/
theorem ClosingStep.preserves {network : Network} {position : Nat} {findings later : Findings}
    (holds : Findings → Prop)
    (discover : ∀ findings item why, holds findings →
      holds (findings.discover position item why))
    (withGraph : ∀ findings graph, holds findings →
      holds { findings with stackGraph := graph })
    (note : ∀ findings stop rule called, holds findings →
      holds (findings.note (.strayStop stop rule called)))
    (step : ClosingStep network position findings later) (first : holds findings) :
    holds later := by
  have returnAll : ∀ frame returns findings, holds findings →
      holds (findings.returnAll position frame returns) := by
    intro frame returns
    induction returns with
    | nil => exact fun _ first => first
    | cons pair rest ih => exact fun findings first => ih _ (discover findings _ _ first)
  cases step with
  | @predict item entry follow rule =>
    rw [Findings.predict_eq entry ⟨follow, rule, position⟩]
    exact returnAll _ _ _ (discover _ _ _ (withGraph _ _ first))
  | epsilon => exact discover _ _ _ first
  | @complete stop rule =>
    rcases Findings.complete_cases position stop rule findings with
      same | ⟨frame, -, -, returns⟩ | ⟨called, noted⟩
    · rw [same]
      exact first
    · rw [returns]
      refine returnAll _ _ _ ?_
      unfold Findings.remember
      split
      · exact withGraph _ _ first
      · exact first
    · rw [noted]
      exact note _ _ _ _ first

/-- Findings grow when a token is scanned. -/
theorem ScanningStep.grows {network : Network} {position : Nat} {token : Token}
    {findings later : Findings} (step : ScanningStep network position token findings later) :
    findings.Extends later := by
  cases step with
  | scan => exact Findings.extends_discover _ _ _ _

namespace Findings

/-- An item stands outside all calls and begins at the first position, or it stands on a node and
begins where the call of the node began, at its own position or in front of it. -/
def Placed (findings : Findings) (position : Nat) (item : Item) : Prop :=
  item.stack = emptyStack ∧ item.origin = 0 ∨
    ∃ frame, findings.stackGraph.frame? item.stack = some frame ∧
      item.origin = frame.position ∧ frame.position ≤ position

/-- **Linked findings** of a network that starts in a state and reads an input. -/
structure Linked (network : Network) (start : Nat) (input : List Token)
    (findings : Findings) : Prop where
  /-- Chart, provenance and history agree. -/
  coherent : findings.Coherent
  /-- Every find is legal. -/
  legal : ∀ place why, (place, why) ∈ findings.finds →
    Legal network start input findings.stackGraph place why
  /-- Every find refers to places found earlier. -/
  earlier : ∀ place why, (place, why) ∈ findings.finds →
    ∀ source ∈ why.sources place.position, findings.rank source < findings.rank place
  /-- Every item found is in a state of the network. -/
  inState : ∀ position item, findings.Has position item →
    ∃ state, network.state? item.state = some state
  /-- Every item found begins where the call on its stack began. -/
  placed : ∀ position item, findings.Has position item → findings.Placed position item
  /-- Callers are registered on nodes with a frame, are found where the call began and offer it. -/
  callers : ∀ node, ∀ caller ∈ findings.stackGraph.callers node, ∃ frame entry,
    findings.stackGraph.frame? node = some frame ∧ findings.Has frame.position caller ∧
      network.Offers caller.state (.call entry frame.follow frame.rule)
  /-- Every node has a caller. -/
  called : ∀ node frame, findings.stackGraph.frame? node = some frame →
    ∃ caller, caller ∈ findings.stackGraph.callers node
  /-- Empty returns are remembered on nodes with a frame, stand on them and are found where the call
  began, and its rule stops in them. -/
  emptyReturns : ∀ node, ∀ stop ∈ findings.stackGraph.emptyReturns node, ∃ frame,
    findings.stackGraph.frame? node = some frame ∧ findings.Has frame.position stop ∧
      stop.stack = node ∧ network.StopsIn frame.rule stop.state

/-- An item placed stays so. -/
theorem Placed.mono {findings later : Findings} (grown : findings.Extends later) {position : Nat}
    {item : Item} (placed : findings.Placed position item) : later.Placed position item := by
  rcases placed with outside | ⟨frame, here, began⟩
  · exact Or.inl outside
  · exact Or.inr ⟨frame, grown.frames _ _ here, began⟩

variable {network : Network} {start : Nat} {input : List Token} {findings : Findings}

/-- What a find refers to is found. -/
theorem Linked.has_source (linked : findings.Linked network start input) {place source : Place}
    {why : Provenance} (member : (place, why) ∈ findings.finds)
    (isSource : source ∈ why.sources place.position) :
    findings.Has source.position source.item := by
  have before := linked.earlier place why member source isSource
  have placeFound := (findings.rank_lt_iff place).2 (List.mem_map_of_mem member)
  exact linked.coherent.has_iff.2
    ((findings.rank_lt_iff source).1 (Nat.lt_trans before placeFound))

/-- A caller registered on a node with a frame is found where its call began, and offers it. -/
theorem Linked.caller (linked : findings.Linked network start input) {node : Nat} {frame : Frame}
    (here : findings.stackGraph.frame? node = some frame) {caller : Item}
    (registered : caller ∈ findings.stackGraph.callers node) :
    findings.Has frame.position caller ∧
      ∃ entry, network.Offers caller.state (.call entry frame.follow frame.rule) := by
  obtain ⟨frame', entry, here', found, offers⟩ := linked.callers node caller registered
  rw [here] at here'
  cases here'
  exact ⟨found, entry, offers⟩

/-- A node with a frame has a caller that is found where its call began, and offers it. -/
theorem Linked.exists_caller (linked : findings.Linked network start input) {node : Nat}
    {frame : Frame} (here : findings.stackGraph.frame? node = some frame) :
    ∃ caller ∈ findings.stackGraph.callers node, findings.Has frame.position caller ∧
      ∃ entry, network.Offers caller.state (.call entry frame.follow frame.rule) := by
  obtain ⟨caller, registered⟩ := linked.called node frame here
  exact ⟨caller, registered, linked.caller here registered⟩

/-- An item found on a node with a frame began where its call began, no later than its position. -/
theorem Linked.began (linked : findings.Linked network start input) {position : Nat} {item : Item}
    {frame : Frame} (found : findings.Has position item)
    (here : findings.stackGraph.frame? item.stack = some frame) :
    item.origin = frame.position ∧ frame.position ≤ position := by
  rcases linked.placed position item found with ⟨outside, -⟩ | ⟨frame', here', began⟩
  · rw [outside] at here
    cases here
  · rw [here] at here'
    cases here'
    exact began

/-- Before a run findings are linked. -/
theorem linked_initial (network : Network) (start : Nat) (input : List Token) :
    initial.Linked network start input where
  coherent := coherent_initial
  legal place why member := by simp [finds, initial] at member
  earlier place why member := by simp [finds, initial] at member
  inState position item found := absurd found (not_has_initial position item)
  placed position item found := absurd found (not_has_initial position item)
  callers node caller registered := by simp [initial] at registered
  called node frame here := by simp [initial] at here
  emptyReturns node stop remembered := by simp [initial] at remembered

/-- Findings stay linked with a note that is no find. -/
theorem Linked.note (linked : findings.Linked network start input) {occurrence : Occurrence}
    (noFind : occurrence.find? = none) :
    (findings.note occurrence).Linked network start input where
  coherent := linked.coherent.note noFind
  legal := by
    rw [finds_note findings noFind]
    exact linked.legal
  earlier := by
    unfold rank
    rw [finds_note findings noFind]
    exact linked.earlier
  inState := linked.inState
  placed := linked.placed
  callers := linked.callers
  called := linked.called
  emptyReturns := linked.emptyReturns

/-- Finding an item by a legal step from places found earlier keeps findings linked. -/
theorem Linked.discover (linked : findings.Linked network start input) {position : Nat}
    {item : Item} {why : Provenance}
    (legal : Legal network start input findings.stackGraph ⟨position, item⟩ why)
    (sources : ∀ source ∈ why.sources position, findings.Has source.position source.item)
    (inState : ∃ state, network.state? item.state = some state)
    (placed : findings.Placed position item) :
    (findings.discover position item why).Linked network start input := by
  by_cases known : findings.chart.contains position item = true
  · rw [discover_of_contains known]
    exact linked
  have grown := findings.extends_discover position item why
  have finds := findings.finds_discover position item why
  rw [if_neg known] at finds
  have fresh := linked.coherent.not_mem_of_not_contains known
  refine ⟨linked.coherent.discover position item why, ?_, ?_, ?_, ?_, ?_, ?_, ?_⟩
  · -- every find is an old one or the new one
    intro place other member
    rw [stackGraph_discover]
    rw [finds, List.mem_append, List.mem_singleton] at member
    rcases member with old | new
    · exact linked.legal place other old
    · cases new
      exact legal
  · intro place other member source isSource
    rw [finds, List.mem_append, List.mem_singleton] at member
    rcases member with old | new
    · -- the ranks of old places stay, and the sources of an old find are old
      have before := linked.earlier place other old source isSource
      have placeFound := List.mem_map_of_mem (f := Prod.fst) old
      have sourceFound := (findings.rank_lt_iff source).1
        (Nat.lt_trans before ((findings.rank_lt_iff place).2 placeFound))
      rwa [grown.rank_eq placeFound, grown.rank_eq sourceFound]
    · -- the new place is behind all others
      cases new
      have sourceFound := linked.coherent.has_iff.1 (sources source isSource)
      have last : (findings.discover position item why).rank ⟨position, item⟩ =
          findings.finds.length := by
        rw [rank, finds, List.map_append, List.idxOf_append, if_neg fresh]
        simp
      rw [grown.rank_eq sourceFound, last]
      exact (findings.rank_lt_iff source).2 sourceFound
  · intro other another found
    rcases (has_discover _ _ _ _ _ _).1 found with old | ⟨-, rfl⟩
    · exact linked.inState other another old
    · exact inState
  · intro other another found
    rcases (has_discover _ _ _ _ _ _).1 found with old | ⟨rfl, rfl⟩
    · exact (linked.placed other another old).mono grown
    · exact placed.mono grown
  · -- the stacks are those from before, and what was found stays found
    intro node caller registered
    rw [stackGraph_discover] at registered ⊢
    obtain ⟨frame, entry, here, found, offers⟩ := linked.callers node caller registered
    exact ⟨frame, entry, here, grown.has found, offers⟩
  · rw [stackGraph_discover]
    exact linked.called
  · intro node stop remembered
    rw [stackGraph_discover] at remembered ⊢
    obtain ⟨frame, here, found, stops⟩ := linked.emptyReturns node stop remembered
    exact ⟨frame, here, grown.has found, stops⟩

/-- Stacks that keep their frames and callers, and whose new entries are in order, keep findings
linked. -/
theorem Linked.withGraph (linked : findings.Linked network start input) {graph : StackGraph}
    (frames : ∀ node frame, findings.stackGraph.frame? node = some frame →
      graph.frame? node = some frame)
    (kept : ∀ node caller, caller ∈ findings.stackGraph.callers node →
      caller ∈ graph.callers node)
    (callers : ∀ node, ∀ caller ∈ graph.callers node, ∃ frame entry,
      graph.frame? node = some frame ∧ findings.Has frame.position caller ∧
        network.Offers caller.state (.call entry frame.follow frame.rule))
    (called : ∀ node frame, graph.frame? node = some frame →
      ∃ caller, caller ∈ graph.callers node)
    (emptyReturns : ∀ node, ∀ stop ∈ graph.emptyReturns node, ∃ frame,
      graph.frame? node = some frame ∧ findings.Has frame.position stop ∧ stop.stack = node ∧
        network.StopsIn frame.rule stop.state) :
    ({ findings with stackGraph := graph } : Findings).Linked network start input where
  coherent := linked.coherent.withGraph graph
  legal place why member := (linked.legal place why member).mono frames kept
  earlier := linked.earlier
  inState := linked.inState
  placed position item found := by
    rcases linked.placed position item found with outside | ⟨frame, here, began⟩
    · exact Or.inl outside
    · exact Or.inr ⟨frame, frames _ _ here, began⟩
  callers := callers
  called := called
  emptyReturns := emptyReturns

/-- Registering an item that offers a call keeps findings linked. -/
theorem Linked.register (linked : findings.Linked network start input) {frame : Frame}
    {caller : Item} {entry : Nat} (found : findings.Has frame.position caller)
    (offers : network.Offers caller.state (.call entry frame.follow frame.rule)) :
    (findings.register frame caller).Linked network start input := by
  have grown := findings.extends_register frame caller
  refine linked.withGraph grown.frames (fun node caller => grown.mem_callers) ?_ ?_ ?_
  · -- a caller is an old one, or the one registered on the node of the frame
    intro node another registered
    rcases (StackGraph.mem_callers_register _ _ _ _ _).1 registered with old | ⟨rfl, rfl⟩
    · obtain ⟨other, entry, here, found, offers⟩ := linked.callers node another old
      exact ⟨other, entry, grown.frames _ _ here, found, offers⟩
    · exact ⟨frame, entry, StackGraph.frame?_push_self _ _, found, offers⟩
  · -- a node that is new has the caller registered
    intro node other here
    rcases (StackGraph.frame?_register _ _ _ _ _).1 here with old | ⟨rfl, rfl⟩
    · obtain ⟨another, registered⟩ := linked.called node other old
      exact ⟨another, grown.mem_callers registered⟩
    · exact ⟨caller, (StackGraph.mem_callers_register _ _ _ _ _).2 (Or.inr ⟨rfl, rfl⟩)⟩
  · intro node stop remembered
    rw [StackGraph.emptyReturns_register] at remembered
    obtain ⟨other, here, found, stops⟩ := linked.emptyReturns node stop remembered
    exact ⟨other, grown.frames _ _ here, found, stops⟩

/-- Remembering an item in which the rule of its call stops keeps findings linked. -/
theorem Linked.remember (linked : findings.Linked network start input) {position : Nat}
    {frame : Frame} {stop : Item} (found : findings.Has position stop)
    (here : findings.stackGraph.frame? stop.stack = some frame)
    (stops : network.StopsIn frame.rule stop.state) :
    (findings.remember position frame stop).Linked network start input := by
  by_cases began : frame.position = position
  · have remembers := mem_emptyReturns_remember here position
    unfold Findings.remember at remembers ⊢
    rw [if_pos began] at remembers ⊢
    -- the frames and the callers are those from before
    refine linked.withGraph (fun _ _ => id) ?_ ?_ ?_ ?_
    · intro node caller
      rw [StackGraph.callers_addEmptyReturn]
      exact id
    · intro node caller
      rw [StackGraph.callers_addEmptyReturn]
      exact linked.callers node caller
    · intro node other here
      rw [StackGraph.callers_addEmptyReturn]
      exact linked.called node other here
    · intro node other member
      rcases (remembers other node).1 member with old | ⟨-, rfl, rfl⟩
      · exact linked.emptyReturns node other old
      · exact ⟨frame, here, began ▸ found, rfl, stops⟩
  · unfold Findings.remember
    rw [if_neg began]
    exact linked

/-- Going on behind a call from a stop and its callers keeps findings linked. -/
theorem Linked.returnAll {position : Nat} {frame : Frame} {returns : List (Item × Item)}
    (linked : findings.Linked network start input)
    (legit : ∀ pair ∈ returns, findings.Has position pair.1 ∧
      findings.stackGraph.frame? pair.1.stack = some frame ∧
      network.StopsIn frame.rule pair.1.state ∧
      pair.2 ∈ findings.stackGraph.callers pair.1.stack) :
    (findings.returnAll position frame returns).Linked network start input := by
  induction returns generalizing findings with
  | nil => exact linked
  | cons pair rest ih =>
    obtain ⟨stop, caller⟩ := pair
    obtain ⟨found, here, stops, registered⟩ := legit (stop, caller) (List.mem_cons_self ..)
    obtain ⟨foundCaller, entry, offers⟩ := linked.caller here registered
    -- the stop began where the call began, at which its callers were found
    have behind := linked.began found here
    rw [returnAll_cons]
    refine ih (linked.discover (.complete stops here behind.1.symm registered) ?_ ?_ ?_) ?_
    · intro source isSource
      simp only [Provenance.sources, List.mem_cons, List.not_mem_nil, or_false] at isSource
      rcases isSource with rfl | rfl
      · exact found
      · rw [behind.1]
        exact foundCaller
    · exact offers.exists_state? (by simp [Transition.references])
    · rcases linked.placed _ caller foundCaller with outside | ⟨outer, there, began, before⟩
      · exact Or.inl outside
      · exact Or.inr ⟨outer, there, began, Nat.le_trans before behind.2⟩
    · -- the other returns are still legitimate, since the stacks are the same
      intro pair member
      obtain ⟨found, rest⟩ := legit pair (List.mem_cons_of_mem _ member)
      rw [returnTo, stackGraph_discover]
      exact ⟨(extends_discover _ _ _ _).has found, rest⟩

/-- Entering a call from an item that offers it keeps findings linked. -/
theorem Linked.enter (linked : findings.Linked network start input) {frame : Frame}
    {caller : Item} {entry : Nat} (found : findings.Has frame.position caller)
    (offers : network.Offers caller.state (.call entry frame.follow frame.rule)) :
    (findings.enter frame.position entry frame caller).Linked network start input := by
  have here : (findings.register frame caller).stackGraph.frame?
      (findings.stackGraph.push frame).1 = some frame := StackGraph.frame?_push_self _ _
  have registered : caller ∈ (findings.register frame caller).stackGraph.callers
      (findings.stackGraph.push frame).1 :=
    (StackGraph.mem_callers_register _ _ _ _ _).2 (Or.inr ⟨rfl, rfl⟩)
  refine (linked.register found offers).discover (.predict offers here registered) ?_ ?_ ?_
  · exact List.forall_mem_singleton.2 found
  · exact offers.exists_state? (by simp [Transition.references])
  · exact Or.inr ⟨frame, here, rfl, Nat.le_refl _⟩

/-- A node pushed before keeps the frame pushed. -/
theorem frame?_enter_self (findings : Findings) (position entry : Nat) (frame : Frame)
    (caller : Item) :
    (findings.enter position entry frame caller).stackGraph.frame?
      (findings.stackGraph.push frame).1 = some frame := by
  rw [Findings.enter, stackGraph_discover]
  exact StackGraph.frame?_push_self _ _

/-- The caller that enters a call is registered on its node. -/
theorem mem_callers_enter_self (findings : Findings) (position entry : Nat) (frame : Frame)
    (caller : Item) :
    caller ∈ (findings.enter position entry frame caller).stackGraph.callers
      (findings.stackGraph.push frame).1 := by
  rw [Findings.enter, stackGraph_discover]
  exact (StackGraph.mem_callers_register _ _ _ _ _).2 (Or.inr ⟨rfl, rfl⟩)

/-- Predicting a rule for an item that calls it keeps findings linked. -/
theorem Linked.predict (linked : findings.Linked network start input) (frame : Frame)
    {caller : Item} {entry : Nat} (found : findings.Has frame.position caller)
    (offers : network.Offers caller.state (.call entry frame.follow frame.rule)) :
    (findings.predict frame.position entry frame.follow frame.rule caller).Linked
      network start input := by
  rw [predict_eq]
  have grown := findings.extends_enter frame.position entry frame caller
  apply (linked.enter found offers).returnAll
  -- the new caller makes up for the empty returns of the node
  rintro ⟨stop, another⟩ member
  obtain ⟨-, remembered, rfl⟩ := mem_lateReturns.1 member
  obtain ⟨other, there, foundStop, node, stops⟩ := linked.emptyReturns _ stop remembered
  have here := findings.frame?_enter_self frame.position entry frame another
  have same : other = frame := by
    rw [grown.frames _ _ there] at here
    exact Option.some.inj here
  subst same
  have node : stop.stack = (findings.stackGraph.push other).1 := node
  refine ⟨grown.has foundStop, ?_, stops, ?_⟩
  · rw [node]
    exact here
  · rw [node]
    exact findings.mem_callers_enter_self _ _ _ _

/-- **Closing steps keep findings linked.** -/
theorem Linked.closingStep (linked : findings.Linked network start input) {position : Nat}
    {later : Findings} (step : ClosingStep network position findings later) :
    later.Linked network start input := by
  cases step with
  | @predict item entry follow rule found offers =>
    exact linked.predict ⟨follow, rule, position⟩ found offers
  | @epsilon item kind target found offers =>
    refine linked.discover (.epsilon offers) ?_ ?_ ?_
    · exact List.forall_mem_singleton.2 found
    · exact offers.exists_state? (by simp [Transition.references])
    · exact linked.placed position item found
  | @complete stop rule found stops =>
    rcases complete_cases position stop rule findings with
      same | ⟨frame, here, rfl, returns⟩ | ⟨called, noted⟩
    · rw [same]
      exact linked
    · -- every caller of the node goes on
      rw [returns]
      apply (linked.remember found here stops).returnAll
      intro pair member
      obtain ⟨caller, registered, rfl⟩ := List.mem_map.1 member
      simp only [has_remember, frame?_remember, callers_remember]
      exact ⟨found, here, stops, registered⟩
    · rw [noted]
      exact linked.note rfl

/-- **Scanning steps keep findings linked.** -/
theorem Linked.scanningStep (linked : findings.Linked network start input) {position : Nat}
    {token : Token} {later : Findings} (read : input[position]? = some token)
    (step : ScanningStep network position token findings later) :
    later.Linked network start input := by
  cases step with
  | @scan item matcher target found offers accepts =>
    refine linked.discover (.scan offers read accepts) ?_ ?_ ?_
    · exact List.forall_mem_singleton.2 found
    · exact offers.exists_state? (by simp [Transition.references])
    · rcases linked.placed position item found with outside | ⟨frame, here, began, before⟩
      · exact Or.inl outside
      · exact Or.inr ⟨frame, here, began, Nat.le_succ_of_le before⟩

end Findings

end TransitionNetworks
