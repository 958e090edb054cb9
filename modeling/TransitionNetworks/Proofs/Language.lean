import TransitionNetworks.Network

/-! # The language of a network

A network describes a language without any machine: `Network.Path` says which token lists lead from
one state to another. A path takes the transitions that a state offers (`Network.Offers`); a state
in which a rule stops (`Network.StopsIn`) offers none, and a call takes any path through the rule.

The lemmas on faultless blueprints say what paths rely on: rules start and stop in states of their
own kind, the states that a transition names exist, and a call enters its rule at the start. -/

namespace TransitionNetworks

namespace Network

/-- A state offers its transitions, unless a rule stops in it. -/
def Offers (network : Network) (state : Nat) (transition : Transition) : Prop :=
  ∃ here, network.state? state = some here ∧ here.stopRule? = none ∧ transition ∈ here.transitions

/-- A rule stops in a state of its own kind. -/
def StopsIn (network : Network) (rule state : Nat) : Prop :=
  ∃ here, network.state? state = some here ∧ here.stopRule? = some rule

/-- **Paths of a network.** The tokens between two states, where a call goes through its rule from
the start to any state in which the rule stops. -/
inductive Path (network : Network) : Nat → List Token → Nat → Prop
  /-- No tokens lead from a state to itself. -/
  | refl (origin : Nat) : Path network origin [] origin
  /-- A terminal transition adds a token that its matcher accepts. -/
  | terminal {origin here target : Nat} {before : List Token} {matcher : Matcher} {token : Token}
      (path : Path network origin before here)
      (offers : network.Offers here (.terminal matcher target))
      (accepts : matcher.accepts token = true) : Path network origin (before ++ [token]) target
  /-- An epsilon transition adds nothing. -/
  | epsilon {origin here target : Nat} {before : List Token} {kind : EpsilonKind}
      (path : Path network origin before here)
      (offers : network.Offers here (.epsilon kind target)) : Path network origin before target
  /-- A call adds what leads through its rule. -/
  | call {origin here start follow rule stop : Nat} {before inside : List Token}
      (path : Path network origin before here)
      (offers : network.Offers here (.call start follow rule))
      (through : Path network start inside stop) (stops : network.StopsIn rule stop) :
      Path network origin (before ++ inside) follow

/-- What a state offers, told of the state itself. -/
theorem Offers.of_state? {network : Network} {id : Nat} {state : State} {transition : Transition}
    (offers : network.Offers id transition) (here : network.state? id = some state) :
    state.stopRule? = none ∧ transition ∈ state.transitions := by
  obtain ⟨found, there, goesOn, member⟩ := offers
  rw [here] at there
  cases there
  exact ⟨goesOn, member⟩

/-- Which rule stops in a state, told of the state itself. -/
theorem StopsIn.of_state? {network : Network} {id rule : Nat} {state : State}
    (stops : network.StopsIn rule id) (here : network.state? id = some state) :
    state.stopRule? = some rule := by
  obtain ⟨found, there, stop⟩ := stops
  rw [here] at there
  cases there
  exact stop

/-- No rule stops in a state that offers a transition. -/
theorem Offers.not_stopsIn {network : Network} {state rule : Nat} {transition : Transition}
    (offers : network.Offers state transition) : ¬ network.StopsIn rule state := by
  rintro ⟨here, found, stops⟩
  obtain ⟨goesOn, -⟩ := offers.of_state? found
  rw [goesOn] at stops
  cases stops

/-- At most one rule stops in a state. -/
theorem StopsIn.unique {network : Network} {state rule other : Nat}
    (stops : network.StopsIn rule state) (stops' : network.StopsIn other state) :
    rule = other := by
  obtain ⟨here, found, stop⟩ := stops
  have stop' := stops'.of_state? found
  rw [stop] at stop'
  exact Option.some.inj stop'

end Network

/-! ## What a network without faults guarantees -/

namespace Blueprint

/-- A rule is without fault exactly if it starts and stops in states of its own kind. -/
theorem ruleFaults_eq_nil_iff (blueprint : Blueprint) (id : Nat) (rule : Rule) :
    blueprint.ruleFaults id rule = [] ↔
      (blueprint.state? rule.start).map State.kind = some (.start id) ∧
        (blueprint.state? rule.stop).map State.kind = some (.stop id) := by
  unfold ruleFaults
  split <;> simp_all

/-- A transition is without fault exactly if the states that it names exist and, if it is a call,
its rule starts where the call enters it. -/
theorem transitionFaults_eq_nil_iff (blueprint : Blueprint) (source : Nat)
    (transition : Transition) : blueprint.transitionFaults source transition = [] ↔
      (∀ target ∈ transition.references, ∃ state, blueprint.state? target = some state) ∧
        ∀ start follow rule, transition = .call start follow rule →
          (blueprint.rule? rule).map Rule.start = some start := by
  unfold transitionFaults
  rw [List.append_eq_nil_iff, List.map_eq_nil_iff, List.filter_eq_nil_iff]
  simp only [Option.isNone_iff_eq_none, ← ne_eq, Option.ne_none_iff_exists']
  apply and_congr Iff.rfl
  cases transition <;> simp

/-- A state is without fault exactly if the rule that it starts or stops exists and none of its
transitions is at fault. -/
theorem stateFaults_eq_nil_iff (blueprint : Blueprint) (id : Nat) (state : State) :
    blueprint.stateFaults id state = [] ↔
      (∀ rule, state.kind.rule? = some rule → ∃ named, blueprint.rule? rule = some named) ∧
        ∀ transition ∈ state.transitions, blueprint.transitionFaults id transition = [] := by
  rw [stateFaults, List.append_eq_nil_iff, List.flatMap_eq_nil_iff, kindFaults]
  cases state.kind.rule? with
  | none => simp
  | some rule => simp [Option.isSome_iff_exists]

/-- A blueprint is without faults exactly if none of its rules and none of its states is at fault.
-/
theorem faults_eq_nil_iff (blueprint : Blueprint) : blueprint.faults = [] ↔
    (∀ id rule, blueprint.rule? id = some rule → blueprint.ruleFaults id rule = []) ∧
      ∀ id state, blueprint.state? id = some state → blueprint.stateFaults id state = [] := by
  rw [faults, List.append_eq_nil_iff, List.flatMap_eq_nil_iff, List.flatMap_eq_nil_iff]
  simp only [Prod.forall, List.mem_zipIdx_iff_getElem?, Array.getElem?_toList, rule?, state?]
  exact and_congr forall_comm forall_comm

end Blueprint

namespace Network

/-- No transition of a network is at fault. -/
theorem transitionFaults_eq_nil (network : Network) {id : Nat} {transition : Transition}
    (offers : network.Offers id transition) : network.transitionFaults id transition = [] := by
  obtain ⟨state, found, -, member⟩ := offers
  have none := (network.faults_eq_nil_iff.1 network.faultless).2 id state found
  exact ((network.stateFaults_eq_nil_iff id state).1 none).2 transition member

/-- A rule starts in a state of its kind and stops in one. -/
theorem kind_of_rule? (network : Network) {id : Nat} {rule : Rule}
    (found : network.rule? id = some rule) :
    (network.state? rule.start).map State.kind = some (.start id) ∧
      (network.state? rule.stop).map State.kind = some (.stop id) := by
  rw [← Blueprint.ruleFaults_eq_nil_iff]
  exact (network.faults_eq_nil_iff.1 network.faultless).1 id rule found

/-- The start state of a rule exists. -/
theorem exists_state?_start (network : Network) {id : Nat} {rule : Rule}
    (found : network.rule? id = some rule) : ∃ state, network.state? rule.start = some state := by
  obtain ⟨state, here, -⟩ := Option.map_eq_some_iff.1 (network.kind_of_rule? found).1
  exact ⟨state, here⟩

/-- A rule stops in its stop state. -/
theorem stopsIn_stop (network : Network) {id : Nat} {rule : Rule}
    (found : network.rule? id = some rule) : network.StopsIn id rule.stop := by
  obtain ⟨state, here, kind⟩ := Option.map_eq_some_iff.1 (network.kind_of_rule? found).2
  exact ⟨state, here, (state.stopRule?_eq_some_iff id).2 kind⟩

/-- The states that a transition names exist. -/
theorem Offers.exists_state? {network : Network} {state target : Nat} {transition : Transition}
    (offers : network.Offers state transition) (member : target ∈ transition.references) :
    ∃ there, network.state? target = some there := by
  have none := network.transitionFaults_eq_nil offers
  exact ((network.transitionFaults_eq_nil_iff state transition).1 none).1 target member

/-- A rule that stops in a state exists. -/
theorem StopsIn.exists_rule? {network : Network} {state rule : Nat}
    (stops : network.StopsIn rule state) : ∃ named, network.rule? rule = some named := by
  obtain ⟨here, found, stop⟩ := stops
  have none := (network.faults_eq_nil_iff.1 network.faultless).2 state here found
  refine ((network.stateFaults_eq_nil_iff state here).1 none).1 rule ?_
  rw [(here.stopRule?_eq_some_iff rule).1 stop]
  rfl

/-- A call enters its rule at the start. -/
theorem Offers.rule?_of_call {network : Network} {state start follow rule : Nat}
    (offers : network.Offers state (.call start follow rule)) :
    ∃ called, network.rule? rule = some called ∧ called.start = start := by
  have none := network.transitionFaults_eq_nil offers
  have entered := ((network.transitionFaults_eq_nil_iff state _).1 none).2 start follow rule rfl
  exact Option.map_eq_some_iff.1 entered

end Network

/-! ## A sample -/

/-- A network whose one rule goes through itself twice, or consumes a seven or the end marker, or
consumes nothing: left recursive, nullable, ambiguous and cyclic. -/
def doubling : Network where
  states :=
    #[⟨.start 0, [.call 0 2 0, .terminal (.oneOf (.ofList [7, Token.endMarker])) 1,
        .epsilon .plain 1]⟩,
      ⟨.stop 0, []⟩,
      ⟨.basic, [.call 0 1 0]⟩]
  rules := #[⟨"S", 0, 1⟩]
  faultless := by decide

/-- A seven or an end marker leads through the rule of the sample. -/
theorem doubling_path_singleton {token : Token} (known : token ∈ [7, Token.endMarker]) :
    doubling.Path 0 [token] 1 := by
  have offers : doubling.Offers 0 (.terminal (.oneOf (.ofList [7, Token.endMarker])) 1) :=
    ⟨_, rfl, rfl, by decide⟩
  have path := (Network.Path.refl 0).terminal offers (by simpa using known)
  exact path

/-- Two paths through the rule of the sample are one. -/
theorem doubling_path_append {first second : List Token} (pathFirst : doubling.Path 0 first 1)
    (pathSecond : doubling.Path 0 second 1) : doubling.Path 0 (first ++ second) 1 := by
  have stops : doubling.StopsIn 0 1 := ⟨_, rfl, rfl⟩
  have entered : doubling.Path 0 first 2 :=
    (Network.Path.refl 0).call ⟨_, rfl, rfl, by decide⟩ pathFirst stops
  exact entered.call ⟨_, rfl, rfl, by decide⟩ pathSecond stops

end TransitionNetworks
