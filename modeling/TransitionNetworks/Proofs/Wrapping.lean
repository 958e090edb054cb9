import TransitionNetworks.Parsing
import TransitionNetworks.Proofs.Acceptance

/-! # A rule that only calls another one

A network can be given one more rule, which does nothing but call a rule that is there
(`Network.wrap`). The old states and rules stay at their ids (`Blueprint.PartOf`), so old paths stay
as they are, and a path through the new rule is a path through the called one.

A run from the new rule does not have to come to the same as a run from the called rule, though. A
call returns from every state in which its rule stops, while a run that begins with the rule accepts
only in the one that the rule names (`Network.recognition_wrap`). The two come to the same if there
is no other, and a rule that stops in two states shows the difference
(`Network.recognize_wrap_twoStops`). -/

namespace TransitionNetworks

namespace Blueprint

variable {blueprint larger : Blueprint}

/-- **Parts.** The states and rules of a part are those of the whole with the same ids. -/
structure PartOf (blueprint larger : Blueprint) : Prop where
  /-- The states of the part are there. -/
  states : ∀ id state, blueprint.state? id = some state → larger.state? id = some state
  /-- The rules of the part are there. -/
  rules : ∀ id rule, blueprint.rule? id = some rule → larger.rule? id = some rule

/-- A rule that is without fault in a part is without fault. -/
theorem PartOf.ruleFaults_eq_nil (part : blueprint.PartOf larger) {id : Nat} {rule : Rule}
    (faultless : blueprint.ruleFaults id rule = []) : larger.ruleFaults id rule = [] := by
  rw [ruleFaults_eq_nil_iff] at faultless ⊢
  obtain ⟨starts, stops⟩ := faultless
  obtain ⟨first, here, kind⟩ := Option.map_eq_some_iff.1 starts
  obtain ⟨last, there, kind'⟩ := Option.map_eq_some_iff.1 stops
  rw [part.states _ _ here, part.states _ _ there]
  exact ⟨congrArg some kind, congrArg some kind'⟩

/-- A transition that is without fault in a part is without fault. -/
theorem PartOf.transitionFaults_eq_nil (part : blueprint.PartOf larger) {source : Nat}
    {transition : Transition} (faultless : blueprint.transitionFaults source transition = []) :
    larger.transitionFaults source transition = [] := by
  rw [transitionFaults_eq_nil_iff] at faultless ⊢
  obtain ⟨named, entered⟩ := faultless
  constructor
  · intro target member
    obtain ⟨state, here⟩ := named target member
    exact ⟨state, part.states target state here⟩
  · intro start follow rule same
    obtain ⟨called, found, starts⟩ := Option.map_eq_some_iff.1 (entered start follow rule same)
    rw [part.rules rule called found]
    exact congrArg some starts

/-- A state that is without fault in a part is without fault. -/
theorem PartOf.stateFaults_eq_nil (part : blueprint.PartOf larger) {id : Nat} {state : State}
    (faultless : blueprint.stateFaults id state = []) : larger.stateFaults id state = [] := by
  rw [stateFaults_eq_nil_iff] at faultless ⊢
  obtain ⟨kind, transitions⟩ := faultless
  constructor
  · intro rule same
    obtain ⟨named, found⟩ := kind rule same
    exact ⟨named, part.rules rule named found⟩
  · intro transition member
    exact part.transitionFaults_eq_nil (transitions transition member)

end Blueprint

namespace Network

section PartOf

variable {network larger : Network} {id : Nat}

/-- What a state of a part offers, it offers in the whole. -/
theorem Offers.in_whole (part : network.PartOf larger.toBlueprint) {transition : Transition}
    (offers : network.Offers id transition) : larger.Offers id transition := by
  obtain ⟨state, here, goesOn, member⟩ := offers
  exact ⟨state, part.states id state here, goesOn, member⟩

/-- A state of a part offers nothing else in the whole. -/
theorem Offers.in_part (part : network.PartOf larger.toBlueprint) {transition : Transition}
    (offers : larger.Offers id transition) {state : State}
    (here : network.state? id = some state) : network.Offers id transition := by
  obtain ⟨goesOn, member⟩ := offers.of_state? (part.states id state here)
  exact ⟨state, here, goesOn, member⟩

/-- A rule that stops in a state of a part stops there in the whole. -/
theorem StopsIn.in_whole (part : network.PartOf larger.toBlueprint) {rule : Nat}
    (stops : network.StopsIn rule id) : larger.StopsIn rule id := by
  obtain ⟨state, here, stop⟩ := stops
  exact ⟨state, part.states id state here, stop⟩

/-- No other rule stops in a state of a part in the whole. -/
theorem StopsIn.in_part (part : network.PartOf larger.toBlueprint) {rule : Nat}
    (stops : larger.StopsIn rule id) {state : State} (here : network.state? id = some state) :
    network.StopsIn rule id :=
  ⟨state, here, stops.of_state? (part.states id state here)⟩

/-- A path of a part is one of the whole. -/
theorem Path.in_whole (part : network.PartOf larger.toBlueprint) {origin target : Nat}
    {tokens : List Token} (path : network.Path origin tokens target) :
    larger.Path origin tokens target := by
  induction path with
  | refl origin => exact .refl origin
  | terminal path offers accepts ih => exact ih.terminal (offers.in_whole part) accepts
  | epsilon path offers ih => exact ih.epsilon (offers.in_whole part)
  | call path offers through stops ihPath ihThrough =>
    exact ihPath.call (offers.in_whole part) ihThrough (stops.in_whole part)

/-- A path of the whole that begins in a part stays in it. -/
theorem Path.in_part (part : network.PartOf larger.toBlueprint) {origin target : Nat}
    {tokens : List Token} (path : larger.Path origin tokens target) {first : State}
    (here : network.state? origin = some first) :
    network.Path origin tokens target ∧ ∃ last, network.state? target = some last := by
  induction path generalizing first with
  | refl origin => exact ⟨.refl origin, first, here⟩
  | terminal path offers accepts ih =>
    obtain ⟨before, state, there⟩ := ih here
    have offers := offers.in_part part there
    exact ⟨before.terminal offers accepts, offers.exists_state? (List.mem_singleton_self _)⟩
  | epsilon path offers ih =>
    obtain ⟨before, state, there⟩ := ih here
    have offers := offers.in_part part there
    exact ⟨before.epsilon offers, offers.exists_state? (List.mem_singleton_self _)⟩
  | @call origin caller start follow rule stop _ _ path offers through stops ihPath ihThrough =>
    obtain ⟨before, state, there⟩ := ihPath here
    have offers := offers.in_part part there
    have enters : start ∈ (Transition.call start follow rule).references := List.mem_cons_self ..
    have goesOn : follow ∈ (Transition.call start follow rule).references :=
      List.mem_cons_of_mem _ (List.mem_singleton_self _)
    -- the call enters the part, so it stops in the part, and goes on there
    obtain ⟨entry, entered⟩ := offers.exists_state? enters
    obtain ⟨inside, last, stopped⟩ := ihThrough entered
    exact ⟨before.call offers inside (stops.in_part part stopped), offers.exists_state? goesOn⟩

end PartOf

/-! ## The network with one more rule -/

/-- **One more rule.** It starts in a new state, which only calls a rule, and stops in a new state
behind the call. -/
def wrap (network : Network) (called : Nat) (rule : Rule) (name : String) : Blueprint where
  states :=
    (network.states.push
        ⟨.start network.ruleCount, [.call rule.start (network.stateCount + 1) called]⟩).push
      ⟨.stop network.ruleCount, []⟩
  rules := network.rules.push ⟨name, network.stateCount, network.stateCount + 1⟩

section Wrap

variable {network : Network} {called : Nat} {rule : Rule} {name : String}

/-- The states of the network with one more rule are the old ones and two new ones. -/
theorem state?_wrap_eq_some_iff {id : Nat} {state : State} :
    (network.wrap called rule name).state? id = some state ↔
      network.state? id = some state ∨
        id = network.stateCount ∧ state = ⟨.start network.ruleCount,
          [.call rule.start (network.stateCount + 1) called]⟩ ∨
        id = network.stateCount + 1 ∧ state = ⟨.stop network.ruleCount, []⟩ := by
  simp only [wrap, Blueprint.state?, stateCount, Array.getElem?_push, Array.size_push]
  have inside : ∀ {state}, network.states[id]? = some state → id < network.states.size :=
    fun here => (Array.getElem?_eq_some_iff.1 here).1
  grind

/-- The rules of the network with one more rule are the old ones and that one. -/
theorem rule?_wrap_eq_some_iff {id : Nat} {other : Rule} :
    (network.wrap called rule name).rule? id = some other ↔
      network.rule? id = some other ∨
        id = network.ruleCount ∧ other = ⟨name, network.stateCount, network.stateCount + 1⟩ := by
  simp only [wrap, Blueprint.rule?, ruleCount, Array.getElem?_push]
  have inside : ∀ {rule}, network.rules[id]? = some rule → id < network.rules.size :=
    fun here => (Array.getElem?_eq_some_iff.1 here).1
  grind

/-- The state in which the new rule starts. -/
theorem state?_wrap_start : (network.wrap called rule name).state? network.stateCount =
    some ⟨.start network.ruleCount, [.call rule.start (network.stateCount + 1) called]⟩ :=
  state?_wrap_eq_some_iff.2 (Or.inr (Or.inl ⟨rfl, rfl⟩))

/-- The state in which the new rule stops. -/
theorem state?_wrap_stop : (network.wrap called rule name).state? (network.stateCount + 1) =
    some ⟨.stop network.ruleCount, []⟩ :=
  state?_wrap_eq_some_iff.2 (Or.inr (Or.inr ⟨rfl, rfl⟩))

/-- The new rule. -/
theorem rule?_wrap_ruleCount : (network.wrap called rule name).rule? network.ruleCount =
    some ⟨name, network.stateCount, network.stateCount + 1⟩ :=
  rule?_wrap_eq_some_iff.2 (Or.inr ⟨rfl, rfl⟩)

/-- The network is part of the one with one more rule. -/
theorem partOf_wrap : network.PartOf (network.wrap called rule name) where
  states _ _ here := state?_wrap_eq_some_iff.2 (Or.inl here)
  rules _ _ found := rule?_wrap_eq_some_iff.2 (Or.inl found)

/-- **One more rule does no harm.** If the rule that it calls is there, nothing is at fault. -/
theorem faults_wrap (known : network.rule? called = some rule) :
    (network.wrap called rule name).faults = [] := by
  have part : network.PartOf (network.wrap called rule name) := partOf_wrap
  obtain ⟨rules, states⟩ := network.faults_eq_nil_iff.1 network.faultless
  rw [Blueprint.faults_eq_nil_iff]
  constructor
  · intro id other found
    rcases rule?_wrap_eq_some_iff.1 found with old | ⟨rfl, rfl⟩
    · exact part.ruleFaults_eq_nil (rules id other old)
    · rw [Blueprint.ruleFaults_eq_nil_iff, state?_wrap_start, state?_wrap_stop]
      exact ⟨rfl, rfl⟩
  · intro id state here
    rcases state?_wrap_eq_some_iff.1 here with old | ⟨rfl, rfl⟩ | ⟨rfl, rfl⟩
    · exact part.stateFaults_eq_nil (states id state old)
    · -- the call enters the called rule at its start and goes on to the new stop state
      obtain ⟨entry, entered⟩ := network.exists_state?_start known
      have found := part.rules called rule known
      simp [Blueprint.stateFaults_eq_nil_iff, Blueprint.transitionFaults_eq_nil_iff,
        StateKind.rule?, Transition.references, rule?_wrap_ruleCount, state?_wrap_stop,
        part.states _ _ entered, found]
    · simp [Blueprint.stateFaults_eq_nil_iff, StateKind.rule?, rule?_wrap_ruleCount]

/-- The network with one more rule, which calls a rule that is there. -/
def wrapped (network : Network) {called : Nat} {rule : Rule}
    (known : network.rule? called = some rule) (name : String) : Network where
  toBlueprint := network.wrap called rule name
  faultless := faults_wrap known

/-- The new start state offers the call. -/
theorem offers_wrapped_start (known : network.rule? called = some rule) :
    (network.wrapped known name).Offers network.stateCount
      (.call rule.start (network.stateCount + 1) called) :=
  ⟨_, state?_wrap_start, rfl, List.mem_singleton_self _⟩

/-- The new rule stops in the new stop state. -/
theorem stopsIn_wrapped_stop (known : network.rule? called = some rule) :
    (network.wrapped known name).StopsIn network.ruleCount (network.stateCount + 1) :=
  ⟨_, state?_wrap_stop, rfl⟩

/-- The new states offer nothing but the call. -/
theorem Offers.of_wrapped (known : network.rule? called = some rule) {here : Nat}
    {transition : Transition} (offers : (network.wrapped known name).Offers here transition)
    (new : here = network.stateCount ∨ here = network.stateCount + 1) :
    here = network.stateCount ∧
      transition = .call rule.start (network.stateCount + 1) called := by
  rcases new with rfl | rfl
  · exact ⟨rfl, List.mem_singleton.1 (offers.of_state? state?_wrap_start).2⟩
  · exact absurd (stopsIn_wrapped_stop known) offers.not_stopsIn

/-- A path from the new start state has not left it, or it has gone through the called rule, to some
state in which that stops. -/
theorem Path.of_wrapped (known : network.rule? called = some rule) {origin target : Nat}
    {tokens : List Token} (path : (network.wrapped known name).Path origin tokens target)
    (begins : origin = network.stateCount) :
    target = network.stateCount ∧ tokens = [] ∨
      target = network.stateCount + 1 ∧
        ∃ stop, network.StopsIn called stop ∧ network.Path rule.start tokens stop := by
  have part : network.PartOf (network.wrapped known name).toBlueprint := partOf_wrap
  induction path with
  | refl origin => exact Or.inl ⟨begins, rfl⟩
  | terminal path offers accepts ih =>
    have new := (ih begins).imp And.left And.left
    cases (offers.of_wrapped known new).2
  | epsilon path offers ih =>
    have new := (ih begins).imp And.left And.left
    cases (offers.of_wrapped known new).2
  | @call origin caller start follow other stop before inside path offers through stops ih =>
    have new := (ih begins).imp And.left And.left
    obtain ⟨unmoved, same⟩ := offers.of_wrapped known new
    cases same
    have none : before = [] := by
      rcases ih begins with ⟨-, none⟩ | ⟨moved, -⟩
      · exact none
      · omega
    -- the call enters the old network, so it stops there
    obtain ⟨entry, entered⟩ := network.exists_state?_start known
    obtain ⟨through, last, stopped⟩ := through.in_part part entered
    rw [none]
    exact Or.inr ⟨rfl, stop, stops.in_part part stopped, through⟩

/-- A path through the new rule is a path through the called rule, to some state in which that
stops. -/
theorem path_wrapped_iff (known : network.rule? called = some rule) (tokens : List Token) :
    (network.wrapped known name).Path network.stateCount tokens (network.stateCount + 1) ↔
      ∃ stop, network.StopsIn called stop ∧ network.Path rule.start tokens stop := by
  have part : network.PartOf (network.wrapped known name).toBlueprint := partOf_wrap
  constructor
  · intro path
    rcases path.of_wrapped known rfl with ⟨stays, -⟩ | ⟨-, through⟩
    · exact absurd stays (Nat.succ_ne_self _)
    · exact through
  · rintro ⟨stop, stops, through⟩
    exact (Path.refl network.stateCount).call (offers_wrapped_start known)
      (through.in_whole part) (stops.in_whole part)

end Wrap

end Network

/-! ## Runs from the new rule -/

/-- A run has stopped at a position if it has found there, outside all calls, some state in which
the rule stops from which it began. -/
def Findings.Stopped (findings : Findings) (network : Network) (rule position : Nat) : Prop :=
  ∃ state, network.StopsIn rule state ∧ findings.Has position ⟨state, 0, emptyStack⟩

section Runs

variable {network : Network} {called : Nat} {rule : Rule} {name : String} {input : List Token}
  {inner outer : Findings}

/-- The run from the new rule is behind its call where the run from the called rule has stopped. -/
theorem Findings.Finished.has_wrapped_iff (known : network.rule? called = some rule)
    (finished : inner.Finished network rule.start input)
    (finished' : outer.Finished (network.wrapped known name) network.stateCount input)
    (position : Nat) : outer.Has position ⟨network.stateCount + 1, 0, emptyStack⟩ ↔
      inner.Stopped network called position := by
  rw [finished'.has_iff_path, Network.path_wrapped_iff]
  constructor
  · rintro ⟨inside, stop, stops, path⟩
    exact ⟨stop, stops, (finished.has_iff_path position stop).2 ⟨inside, path⟩⟩
  · rintro ⟨stop, stops, found⟩
    obtain ⟨inside, path⟩ := (finished.has_iff_path position stop).1 found
    exact ⟨inside, stop, stops, path⟩

/-- A run that finds the stop state of its start rule outside all calls has stopped. -/
theorem Findings.stopped_of_has (known : network.rule? called = some rule) {position : Nat}
    (found : inner.Has position ⟨rule.stop, 0, emptyStack⟩) :
    inner.Stopped network called position :=
  ⟨rule.stop, network.stopsIn_stop known, found⟩

/-- If its start rule stops in no other state than its stop state, a run has stopped exactly where
it finds that. -/
theorem Findings.stopped_iff_has (known : network.rule? called = some rule)
    (only : ∀ state, network.StopsIn called state → state = rule.stop) (position : Nat) :
    inner.Stopped network called position ↔ inner.Has position ⟨rule.stop, 0, emptyStack⟩ := by
  constructor
  · rintro ⟨state, stops, found⟩
    rwa [only state stops] at found
  · intro found
    exact stopped_of_has known found

open Classical in
/-- The run from the new rule accepts behind the end marker if the run from the called rule has
stopped there, otherwise in front of it if that run has stopped there. -/
theorem Findings.Finished.acceptance?_wrapped (known : network.rule? called = some rule)
    (finished : inner.Finished network rule.start input)
    (finished' : outer.Finished (network.wrapped known name) network.stateCount input)
    (last : Nat) : outer.acceptance? ⟨network.stateCount + 1, 0, emptyStack⟩ last =
      if inner.Stopped network called (last + 1) then
        some ⟨last + 1, ⟨network.stateCount + 1, 0, emptyStack⟩⟩
      else if inner.Stopped network called last then
        some ⟨last, ⟨network.stateCount + 1, 0, emptyStack⟩⟩
      else none := by
  rw [acceptance?_eq]
  simp only [finished.has_wrapped_iff known finished']

/-- If the run from the called rule accepts, so does the run from the new rule. -/
theorem Findings.Finished.isSome_acceptance?_wrapped (known : network.rule? called = some rule)
    (finished : inner.Finished network rule.start input)
    (finished' : outer.Finished (network.wrapped known name) network.stateCount input) (last : Nat)
    (accepts : (inner.acceptance? ⟨rule.stop, 0, emptyStack⟩ last).isSome = true) :
    (outer.acceptance? ⟨network.stateCount + 1, 0, emptyStack⟩ last).isSome = true := by
  rw [isSome_acceptance?_iff] at accepts ⊢
  rw [finished.has_wrapped_iff known finished', finished.has_wrapped_iff known finished']
  exact accepts.imp (stopped_of_has known) (stopped_of_has known)

/-- If the called rule stops in no other state than its stop state, the two runs accept at the same
position, if at all. -/
theorem Findings.Finished.position_acceptance?_wrapped (known : network.rule? called = some rule)
    (finished : inner.Finished network rule.start input)
    (finished' : outer.Finished (network.wrapped known name) network.stateCount input)
    (only : ∀ state, network.StopsIn called state → state = rule.stop) (last : Nat) :
    (outer.acceptance? ⟨network.stateCount + 1, 0, emptyStack⟩ last).map Place.position =
      (inner.acceptance? ⟨rule.stop, 0, emptyStack⟩ last).map Place.position := by
  classical
  rw [acceptance?_eq inner, finished.acceptance?_wrapped known finished']
  simp only [stopped_iff_has known only, apply_ite (Option.map Place.position), Option.map_some,
    Option.map_none]

end Runs

namespace Network

/-- **A rule as a start rule and as a callee.** A network with one more rule, which does nothing but
call a rule that is there, is faultless. The run from the new rule accepts behind the end marker if
the run from the called rule has stopped there, in whatever state, otherwise in front of it if that
run has stopped there, and not at all if it has stopped at neither. So whatever is accepted from the
called rule is accepted from the new one; and if the called rule stops in no other state than its
stop state, the verdicts are the same and so are the positions where the runs accept. -/
theorem recognition_wrap (network : Network) {called : Nat} {rule : Rule}
    (known : network.rule? called = some rule) (name : String) :
    ∃ wrapped, (network.wrap called rule name).check = .ok wrapped ∧
      ∀ tokens, ∃ inner outer, network.recognition called tokens = .ok inner ∧
        wrapped.recognition network.ruleCount tokens = .ok outer ∧
        (inner.findings.Stopped network called ((beforeEndMarker tokens).length + 1) →
          outer.accepting = some ⟨(beforeEndMarker tokens).length + 1,
            ⟨network.stateCount + 1, 0, emptyStack⟩⟩) ∧
        (¬ inner.findings.Stopped network called ((beforeEndMarker tokens).length + 1) →
          inner.findings.Stopped network called (beforeEndMarker tokens).length →
          outer.accepting = some ⟨(beforeEndMarker tokens).length,
            ⟨network.stateCount + 1, 0, emptyStack⟩⟩) ∧
        (¬ inner.findings.Stopped network called ((beforeEndMarker tokens).length + 1) →
          ¬ inner.findings.Stopped network called (beforeEndMarker tokens).length →
          outer.accepting = none) ∧
        (network.recognize called tokens = .ok true →
          wrapped.recognize network.ruleCount tokens = .ok true) ∧
        ((∀ state, network.StopsIn called state → state = rule.stop) →
          wrapped.recognize network.ruleCount tokens = network.recognize called tokens ∧
            outer.accepting.map Place.position = inner.accepting.map Place.position) := by
  refine ⟨network.wrapped known name, (Blueprint.check_eq_ok_iff _ _).2 rfl, ?_⟩
  intro tokens
  have known' : (network.wrapped known name).rule? network.ruleCount =
      some ⟨name, network.stateCount, network.stateCount + 1⟩ := rule?_wrap_ruleCount
  obtain ⟨finished, accepting⟩ := network.finished_recognitionFrom known tokens
  obtain ⟨finished', accepting'⟩ :=
    (network.wrapped known name).finished_recognitionFrom known' tokens
  have ran := recognition_of_rule? known tokens
  have ran' := recognition_of_rule? known' tokens
  refine ⟨_, _, ran, ran', ?_, ?_, ?_, ?_, ?_⟩
  · intro behind
    rw [accepting', finished.acceptance?_wrapped known finished', if_pos behind]
  · intro notBehind front
    rw [accepting', finished.acceptance?_wrapped known finished', if_neg notBehind, if_pos front]
  · intro notBehind notFront
    rw [accepting', finished.acceptance?_wrapped known finished', if_neg notBehind,
      if_neg notFront]
  · rw [recognize_of_recognition ran, recognize_of_recognition ran', Except.ok.injEq,
      Except.ok.injEq, Recognition.isAccepted, Recognition.isAccepted, accepting, accepting']
    exact finished.isSome_acceptance?_wrapped known finished' _
  · intro only
    have positions := finished.position_acceptance?_wrapped known finished' only
      (beforeEndMarker tokens).length
    rw [← accepting, ← accepting'] at positions
    have verdicts := congrArg Option.isSome positions
    rw [Option.isSome_map, Option.isSome_map] at verdicts
    rw [recognize_of_recognition ran, recognize_of_recognition ran']
    exact ⟨congrArg Except.ok verdicts, positions⟩

/-- From a rule that calls the rule of the sample the same is accepted as from that, at the same
position. -/
theorem recognition_wrap_doubling :
    ∃ wrapped inner outer, (doubling.wrap 0 ⟨"S", 0, 1⟩ "W").check = .ok wrapped ∧
      doubling.recognition 0 [7] = .ok inner ∧ wrapped.recognition 1 [7] = .ok outer ∧
      wrapped.recognize 1 [7] = doubling.recognize 0 [7] ∧
      outer.accepting.map Place.position = inner.accepting.map Place.position := by
  have known : doubling.rule? 0 = some ⟨"S", 0, 1⟩ := rfl
  have only : ∀ state, doubling.StopsIn 0 state → state = 1 := by
    have all : ∀ state : Fin 3, doubling.states[state].stopRule? = some 0 → state.val = 1 := by
      decide
    rintro state ⟨here, found, stops⟩
    obtain ⟨before, rfl⟩ := Array.getElem?_eq_some_iff.1 found
    exact all ⟨state, before⟩ stops
  obtain ⟨wrapped, valid, runs⟩ := recognition_wrap doubling known "W"
  obtain ⟨inner, outer, ran, ran', -, -, -, -, alike⟩ := runs [7]
  exact ⟨wrapped, inner, outer, valid, ran, ran', alike only⟩

end Network

/-! ## A rule with two stop states -/

/-- A network whose one rule stops in two states and gets to the one that it does not name. -/
def twoStops : Network where
  states := #[⟨.start 0, [.epsilon .plain 2]⟩, ⟨.stop 0, []⟩, ⟨.stop 0, []⟩]
  rules := #[⟨"S", 0, 1⟩]
  faultless := by decide

/-- **As a callee a rule may do what it does not do as a start rule:** the sample rejects the empty
input from its rule and accepts it from a rule that only calls that. -/
theorem Network.recognize_wrap_twoStops :
    twoStops.rule? 0 = some ⟨"S", 0, 1⟩ ∧
      ∃ wrapped, (twoStops.wrap 0 ⟨"S", 0, 1⟩ "W").check = .ok wrapped ∧
        twoStops.recognize 0 [] = .ok false ∧
        wrapped.recognize twoStops.ruleCount [] = .ok true := by
  refine ⟨rfl, twoStops.wrapped (show twoStops.rule? 0 = some ⟨"S", 0, 1⟩ from rfl) "W",
    (Blueprint.check_eq_ok_iff _ _).2 rfl, ?_, ?_⟩
  · decide +kernel
  · decide +kernel

end TransitionNetworks
