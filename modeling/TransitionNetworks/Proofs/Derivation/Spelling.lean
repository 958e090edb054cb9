import TransitionNetworks.Proofs.Derivation.Walks
import TransitionNetworks.Proofs.Run.Links

/-! # What the finds of a run spell

A forest spells a part of an input (`Network.Spells`) if its tokens and calls are those of a path
through the network, so that what is spelled is a path of the language (`Network.Spells.path`).

Every item found unwinds, by induction on the order of discovery (`Findings.Linked.exists_unwinds`).
What unwinds comes to the base of its call through a forest that spells the input from there
(`Findings.Linked.derived`). A call may have been entered for another caller than the one that goes
on behind it; but both are registered on one node, and the base of every item on a node is the start
of its rule (`Findings.Base`), so that what was found for one caller spells a call of any other
(`Findings.Linked.call_of_unwinds`). -/

namespace TransitionNetworks

/-- The tokens of an input from one position to another. -/
def between (began position : Nat) (input : List Token) : List Token :=
  (input.drop began).take (position - began)

/-- There are no tokens between a position and itself. -/
@[simp] theorem between_self (position : Nat) (input : List Token) :
    between position position input = [] := by
  simp [between]

/-- From the first position there is all that is in front of the last. -/
@[simp] theorem between_zero (position : Nat) (input : List Token) :
    between 0 position input = input.take position := by
  simp [between]

/-- The tokens up to a position in between and those from there on. -/
theorem between_append {began middle position : Nat} (first : began ≤ middle)
    (second : middle ≤ position) (input : List Token) :
    between began middle input ++ between middle position input =
      between began position input := by
  have length : position - began = (middle - began) + (position - middle) := by omega
  have middle : began + (middle - began) = middle := by omega
  rw [between, between, between, length, List.take_add, List.drop_drop, middle]

/-- The token at a position comes last in front of the next position. -/
theorem between_succ {began position : Nat} {input : List Token} {token : Token}
    (before : began ≤ position) (read : input[position]? = some token) :
    between began (position + 1) input = between began position input ++ [token] := by
  have length : position + 1 - began = (position - began) + 1 := by omega
  have last : began + (position - began) = position := by omega
  rw [between, between, length, List.take_add_one, List.getElem?_drop, last, read]
  rfl

namespace Network

/-- **Spelling.** A forest spells the input from one position to another, by tokens and calls that
lead from a state to another one. -/
inductive Spells (network : Network) (input : List Token) :
    Nat → Nat → Forest → Nat → Nat → Prop
  /-- Nothing is spelled without a step. -/
  | refl (position state : Nat) : Spells network input position state .nil position state
  /-- An epsilon transition adds nothing. -/
  | epsilon {began origin position here target : Nat} {forest : Forest} {kind : EpsilonKind}
      (path : Spells network input began origin forest position here)
      (offers : network.Offers here (.epsilon kind target)) :
      Spells network input began origin forest position target
  /-- A terminal transition adds the token at its position. -/
  | terminal {began origin position here target : Nat} {forest : Forest} {matcher : Matcher}
      {token : Token} (path : Spells network input began origin forest position here)
      (offers : network.Offers here (.terminal matcher target))
      (read : input[position]? = some token) (accepts : matcher.accepts token = true) :
      Spells network input began origin (.token forest position) (position + 1) target
  /-- A call adds what is spelled from the start of its rule to a state in which the rule stops. -/
  | call {began origin middle here start follow rule position stop : Nat}
      {before inside : Forest} (path : Spells network input began origin before middle here)
      (offers : network.Offers here (.call start follow rule))
      (through : Spells network input middle start inside position stop)
      (stops : network.StopsIn rule stop) :
      Spells network input began origin (.call before rule inside rule) position follow

variable {network : Network} {input : List Token} {began origin position target : Nat}
  {forest : Forest}

/-- What is spelled goes from left to right. -/
theorem Spells.le (spells : network.Spells input began origin forest position target) :
    began ≤ position := by
  induction spells with
  | refl => exact Nat.le_refl _
  | epsilon _ _ ih => exact ih
  | terminal _ _ _ _ ih => exact Nat.le_succ_of_le ih
  | call _ _ _ _ ihPath ihThrough => exact Nat.le_trans ihPath ihThrough

/-- **What is spelled is a path.** -/
theorem Spells.path (spells : network.Spells input began origin forest position target) :
    network.Path origin (between began position input) target := by
  induction spells with
  | refl position state =>
    rw [between_self]
    exact .refl state
  | epsilon _ offers ih => exact .epsilon ih offers
  | terminal path offers read accepts ih =>
    rw [between_succ path.le read]
    exact .terminal ih offers accepts
  | call path offers through stops ihPath ihThrough =>
    rw [← between_append path.le through.le]
    exact .call ihPath offers ihThrough stops

end Network

namespace Findings

/-- **The base of a stack** in findings is where its innermost call was entered, or the seed. -/
inductive Base (network : Network) (start : Nat) (findings : Findings) : Nat → Place → Prop
  /-- Outside all calls it is the seed. -/
  | outside (here : findings.provenance.find? ⟨0, ⟨start, 0, emptyStack⟩⟩ = some .seed) :
      Base network start findings emptyStack ⟨0, ⟨start, 0, emptyStack⟩⟩
  /-- Inside a call it is the start of the rule called, where the call began. -/
  | inside {stack : Nat} {frame : Frame} {called : Rule} {prev : Item}
      (here : findings.stackGraph.frame? stack = some frame)
      (rule : network.rule? frame.rule = some called)
      (entered : findings.provenance.find?
        ⟨frame.position, ⟨called.start, frame.position, stack⟩⟩ = some (.predict prev frame.rule)) :
      Base network start findings stack
        ⟨frame.position, ⟨called.start, frame.position, stack⟩⟩

variable {network : Network} {start : Nat} {input : List Token} {findings : Findings}

/-- The order of discovery ranks the provenance of linked findings. -/
theorem Linked.ranked (linked : findings.Linked network start input) :
    findings.provenance.Ranked findings.rank := by
  intro place why here next goesOn
  have member := (linked.coherent.find?_eq_some_iff place why).1 here
  apply linked.earlier place why member next
  cases why with
  | seed => exact goesOn
  | epsilon prev => exact goesOn
  | predict prev rule => exact absurd goesOn List.not_mem_nil
  | complete stop caller rule => exact goesOn
  | scan prev tokenIndex =>
    obtain ⟨position, item⟩ := place
    cases position with
    | zero => exact absurd goesOn List.not_mem_nil
    | succ position => exact goesOn

/-- What the provenance of linked findings says is legal. -/
theorem Linked.legal_of_find? (linked : findings.Linked network start input) {place : Place}
    {why : Provenance} (here : findings.provenance.find? place = some why) :
    Legal network start input findings.stackGraph place why :=
  linked.legal _ _ ((linked.coherent.find?_eq_some_iff _ _).1 here)

/-- **What unwinds comes to the base of its stack.** -/
theorem Linked.base_of_unwinds (linked : findings.Linked network start input) {place base : Place}
    {forest : Forest} (unwinds : Unwinds findings.provenance place forest base) :
    findings.Base network start place.item.stack base := by
  -- all steps but those that end the way back stay on the stack
  induction unwinds with
  | @seed place here =>
    cases linked.legal_of_find? here with
    | seed => exact .outside here
  | @predict place prev rule here =>
    cases linked.legal_of_find? here with
    | predict offers frame registered =>
      obtain ⟨called, known, rfl⟩ := offers.rule?_of_call
      exact .inside frame known here
  | epsilon here back ih =>
    cases linked.legal_of_find? here with
    | epsilon => exact ih
  | scan here back ih =>
    cases linked.legal_of_find? here with
    | scan => exact ih
  | complete here through enters back ihThrough ihBack =>
    cases linked.legal_of_find? here with
    | complete => exact ihBack

/-- **What unwinds through a call** goes on behind a call that its caller offers, whose rule stops,
and comes to the start of the rule where the stop began. -/
theorem Linked.call_of_unwinds (linked : findings.Linked network start input)
    {position entered exited : Nat} {item stop caller prev : Item} {inside : Forest} {entry : Place}
    (here : findings.provenance.find? ⟨position, item⟩ = some (.complete stop caller exited))
    (through : Unwinds findings.provenance ⟨position, stop⟩ inside entry)
    (enters : findings.provenance.find? entry = some (.predict prev entered)) :
    ∃ frame called, findings.stackGraph.frame? stop.stack = some frame ∧ frame.rule = exited ∧
      entered = exited ∧ network.rule? exited = some called ∧ network.StopsIn exited stop.state ∧
      network.Offers caller.state (.call called.start frame.follow exited) ∧
      item = caller.withState frame.follow ∧
      entry = ⟨stop.origin, ⟨called.start, stop.origin, stop.stack⟩⟩ := by
  have isEntry := linked.base_of_unwinds through
  cases linked.legal_of_find? here with
  | @complete _ _ _ frame stops frame? origin registered =>
    obtain ⟨-, start', offers⟩ := linked.caller frame? registered
    obtain ⟨called, known, rfl⟩ := offers.rule?_of_call
    generalize stack : stop.stack = node at isEntry
    -- the stop is inside a call, so its base is where that call was entered
    cases isEntry with
    | outside =>
      rw [stack] at frame?
      cases frame?
    | @inside _ frame' called' prev' frame?' known' entered' =>
      rw [stack, frame?'] at frame?
      cases frame?
      rw [known'] at known
      cases known
      rw [entered'] at enters
      cases enters
      rw [origin]
      exact ⟨_, _, frame?', rfl, rfl, known', stops, offers, rfl, rfl⟩

/-- **What unwinds spells the input** from its base. -/
theorem Linked.spells_of_unwinds (linked : findings.Linked network start input)
    {place base : Place} {forest : Forest}
    (unwinds : Unwinds findings.provenance place forest base) :
    network.Spells input base.position base.item.state forest place.position place.item.state := by
  induction unwinds with
  | seed => exact .refl _ _
  | predict => exact .refl _ _
  | epsilon here back ih =>
    cases linked.legal_of_find? here with
    | epsilon offers => exact ih.epsilon offers
  | scan here back ih =>
    cases linked.legal_of_find? here with
    | scan offers read accepts => exact ih.terminal offers read accepts
  | complete here through enters back ihThrough ihBack =>
    -- what lies in front of the caller, and what lies inside the call
    obtain ⟨frame, called, -, -, rfl, known, stops, offers, rfl, rfl⟩ :=
      linked.call_of_unwinds here through enters
    exact ihBack.call offers ihThrough stops

/-- Every item found unwinds. -/
theorem Linked.exists_unwinds (linked : findings.Linked network start input) {position : Nat}
    {item : Item} (found : findings.Has position item) :
    ∃ forest base, Unwinds findings.provenance ⟨position, item⟩ forest base := by
  -- by induction on the rank in the order of discovery
  induction rank : findings.rank ⟨position, item⟩ using Nat.strongRecOn
    generalizing position item with
  | ind rank ih =>
  subst rank
  obtain ⟨why, member⟩ := linked.coherent.exists_find found
  -- what the find refers to was found earlier, so it unwinds
  have here := (linked.coherent.find?_eq_some_iff _ _).2 member
  have back : ∀ source ∈ why.sources position, ∃ forest base,
      Unwinds findings.provenance source forest base := fun source isSource =>
    ih _ (linked.earlier _ _ member source isSource) (linked.has_source member isSource) rfl
  cases linked.legal _ _ member with
  | seed => exact ⟨.nil, _, .seed here⟩
  | predict => exact ⟨.nil, _, .predict here⟩
  | epsilon =>
    obtain ⟨forest, base, unwinds⟩ := back _ (List.mem_cons_self ..)
    exact ⟨forest, base, .epsilon here unwinds⟩
  | scan =>
    obtain ⟨forest, base, unwinds⟩ := back _ (List.mem_cons_self ..)
    exact ⟨_, base, .scan here unwinds⟩
  | @complete _ stop caller frame stops frame? =>
    obtain ⟨inside, entry, through⟩ := back _ (List.mem_cons_self ..)
    obtain ⟨before, base, unwinds⟩ := back _ (List.mem_cons_of_mem _ (List.mem_cons_self ..))
    -- the stop is inside a call, so it unwinds to where a rule was entered
    have isEntry := linked.base_of_unwinds through
    generalize stack : stop.stack = node at isEntry frame?
    cases isEntry with
    | outside => cases frame?
    | inside _ _ entered => exact ⟨_, base, .complete here through entered unwinds⟩

/-- **Every item found is derived.** It unwinds to the base of its stack, and what lies in between
spells the input from there. -/
theorem Linked.derived (linked : findings.Linked network start input) {position : Nat} {item : Item}
    (found : findings.Has position item) :
    ∃ forest base, Unwinds findings.provenance ⟨position, item⟩ forest base ∧
      findings.Base network start item.stack base ∧
      network.Spells input base.position base.item.state forest position item.state := by
  obtain ⟨forest, base, unwinds⟩ := linked.exists_unwinds found
  exact ⟨forest, base, unwinds, linked.base_of_unwinds unwinds, linked.spells_of_unwinds unwinds⟩

/-- **Every item found outside all calls has a derivation.** It unwinds to the seed, and what lies
in between spells the input in front. -/
theorem Linked.derivation (linked : findings.Linked network start input) {position state : Nat}
    (found : findings.Has position ⟨state, 0, emptyStack⟩) :
    ∃ forest, Unwinds findings.provenance ⟨position, ⟨state, 0, emptyStack⟩⟩ forest
        ⟨0, ⟨start, 0, emptyStack⟩⟩ ∧
      findings.provenance.derivation ⟨position, ⟨state, 0, emptyStack⟩⟩ = .ok forest.events ∧
      network.Spells input 0 start forest position state := by
  obtain ⟨forest, base, unwinds, isBase, spells⟩ := linked.derived found
  cases isBase with
  | inside here =>
    rw [StackGraph.frame?_empty] at here
    cases here
  | outside seed =>
    refine ⟨forest, unwinds, unwinds.derivation linked.ranked seed ?_, spells⟩
    rw [linked.coherent.size]
    exact Nat.le_of_lt ((findings.rank_lt_iff _).2 (linked.coherent.has_iff.1 found))

end Findings

end TransitionNetworks
