import TransitionNetworks.Proofs.Grammar.Decision

/-! # The states of a rule

In the network of a grammar every rule has states of its own (`Grammar.HasState`): its start and its
stop state, and the states of the chains of its alternatives. Inside a rule transitions lead from
its states to its states (`Grammar.HasState.next`), a call leads to a state of the rule called
(`Grammar.hasState_of_call`), and among the states of a rule only the rule itself stops
(`Grammar.HasState.eq_of_stopsIn`). -/

namespace TransitionNetworks

/-- The state to which a transition leads inside its rule: behind a call, the one that follows. -/
def Transition.next : Transition → Nat
  | terminal _ target => target
  | call _ follow _ => follow
  | epsilon _ target => target

/-- The transition of a step leads on to the next state of its chain. -/
@[simp] theorem Step.next_transition (step : Step Nat) (next : Nat) :
    (step.transition next).next = next := by
  cases step <;> rfl

/-- Inside a chain there is the chain of the steps left. -/
theorem Blueprint.HasChain.drop {blueprint : Blueprint} {stop head place : Nat}
    {steps : Alternative Nat} (hasChain : blueprint.HasChain stop head steps)
    (inside : place ≤ steps.length) :
    blueprint.HasChain stop (head + place) (steps.drop place) := by
  induction place generalizing head steps with
  | zero => exact hasChain
  | succ place ih =>
    cases steps with
    | nil => exact absurd inside (Nat.not_succ_le_zero place)
    | cons step rest =>
      have behind := ih hasChain.2 (Nat.le_of_succ_le_succ inside)
      rwa [Nat.add_right_comm, Nat.add_assoc] at behind

namespace Grammar

/-- **The states of a rule** in the network of a grammar. -/
inductive HasState (grammar : Grammar) (network : Network) (rule : Nat) : Nat → Prop
  /-- The state in which the rule starts. -/
  | start {production : Production String} (found : grammar.productions[rule]? = some production) :
      HasState grammar network rule (startState rule)
  /-- The state in which the rule stops. -/
  | stop {production : Production String} (found : grammar.productions[rule]? = some production) :
      HasState grammar network rule (stopState rule)
  /-- The states of the chain of an alternative, from the head to which the start state leads. There
  is one in front of every step, and one behind the last. -/
  | chain {production : Production String} {alternative : Alternative String} {first : State}
      {n head place : Nat} (found : grammar.productions[rule]? = some production)
      (written : production.alternatives[n]? = some alternative)
      (starts : network.state? (startState rule) = some first)
      (leads : first.transitions[n]? = some (.epsilon .plain head))
      (inside : place ≤ alternative.length) : HasState grammar network rule (head + place)

variable {grammar : Grammar} {network : Network} {rule state : Nat}

/-- The head of an alternative is that of its chain. -/
theorem hasChain_of_leads (built : grammar.toNetwork = .ok network)
    {production : Production String} {alternative : Alternative String} {first : State}
    {n head : Nat} (found : grammar.productions[rule]? = some production)
    (written : production.alternatives[n]? = some alternative)
    (starts : network.state? (startState rule) = some first)
    (leads : first.transitions[n]? = some (.epsilon .plain head)) :
    ∃ steps, network.HasChain (stopState rule) head steps ∧ steps.length = alternative.length := by
  obtain ⟨productions, resolved, laidOut⟩ := exists_layout built
  obtain ⟨-, all⟩ := corresponds_of_resolve resolved
  obtain ⟨image, there, corresponds⟩ := exists_getElem?_of_forall₂ all found
  obtain ⟨heads, starts', chains⟩ := laidOut.start rule image there
  rw [starts] at starts'
  cases starts'
  obtain ⟨steps, isImage, same⟩ := exists_getElem?_of_forall₂ corresponds.alternatives written
  obtain ⟨head', isHead, hasChain⟩ := exists_getElem?_of_forall₂ chains isImage
  rw [List.getElem?_map, isHead] at leads
  cases leads
  exact ⟨steps, hasChain, same.length_eq.symm⟩

/-- **Inside a rule transitions lead from its states to its states.** -/
theorem HasState.next (built : grammar.toNetwork = .ok network)
    (inRule : grammar.HasState network rule state) {transition : Transition}
    (offers : network.Offers state transition) : grammar.HasState network rule transition.next := by
  obtain ⟨productions, resolved, laidOut⟩ := exists_layout built
  obtain ⟨-, all⟩ := corresponds_of_resolve resolved
  cases inRule with
  | start found =>
    obtain ⟨image, there, corresponds⟩ := exists_getElem?_of_forall₂ all found
    obtain ⟨heads, starts, chains⟩ := laidOut.start rule image there
    obtain ⟨-, member⟩ := offers.of_state? starts
    -- the transition leads to the head of the alternative at its place
    obtain ⟨n, here⟩ := List.mem_iff_getElem?.1 member
    rw [List.getElem?_map] at here
    obtain ⟨head, isHead, rfl⟩ := Option.map_eq_some_iff.1 here
    obtain ⟨steps, isImage, -⟩ := exists_getElem?_of_forall₂ chains.flip isHead
    obtain ⟨alternative, written, -⟩ :=
      exists_getElem?_of_forall₂ corresponds.alternatives.flip isImage
    have leads : (heads.map (Transition.epsilon .plain))[n]? = some (.epsilon .plain head) := by
      rw [List.getElem?_map, isHead]
      rfl
    show grammar.HasState network rule (head + 0)
    exact .chain found written starts leads (Nat.zero_le _)
  | stop found =>
    obtain ⟨image, there, -⟩ := exists_getElem?_of_forall₂ all found
    have stops : network.StopsIn rule (stopState rule) := ⟨_, laidOut.stop rule image there, rfl⟩
    exact absurd stops offers.not_stopsIn
  | @chain production alternative first n head place found written starts leads inside =>
    obtain ⟨steps, hasChain, length⟩ := hasChain_of_leads built found written starts leads
    have ahead := hasChain.drop (length ▸ inside)
    rcases ahead.eq_of_offers offers with ⟨-, rfl⟩ | ⟨step, rest, left, rfl, -⟩
    · exact .stop found
    · -- a step is left, so the next place is inside too
      have more : place < steps.length := by
        rw [← Nat.not_le, ← List.drop_eq_nil_iff, left]
        exact List.cons_ne_nil step rest
      rw [Step.next_transition, Nat.add_assoc]
      exact .chain found written starts leads (length ▸ more)

/-- **A call leads to a state of the rule called.** -/
theorem hasState_of_call (built : grammar.toNetwork = .ok network) {start follow : Nat}
    (offers : network.Offers state (.call start follow rule)) :
    grammar.HasState network rule start := by
  obtain ⟨productions, resolved, laidOut⟩ := exists_layout built
  obtain ⟨-, all⟩ := corresponds_of_resolve resolved
  obtain ⟨rfl, image, there⟩ := laidOut.exists_production offers
  obtain ⟨production, found, -⟩ := exists_getElem?_of_forall₂ all.flip there
  exact .start found

/-- **Among the states of a rule only the rule itself stops.** -/
theorem HasState.eq_of_stopsIn (built : grammar.toNetwork = .ok network)
    (inRule : grammar.HasState network rule state) {other : Nat}
    (stops : network.StopsIn other state) : other = rule := by
  obtain ⟨productions, resolved, laidOut⟩ := exists_layout built
  obtain ⟨here, found, stop⟩ := stops
  have same := laidOut.stops state here other found stop
  cases inRule with
  | start =>
    unfold startState stopState at same
    omega
  | stop =>
    unfold stopState at same
    omega
  | chain found' written starts leads inside =>
    obtain ⟨steps, hasChain, length⟩ := hasChain_of_leads built found' written starts leads
    obtain ⟨transition, basic⟩ := (hasChain.drop (length ▸ inside)).exists_state?
    rw [found] at basic
    cases basic
    cases stop

end Grammar

end TransitionNetworks
