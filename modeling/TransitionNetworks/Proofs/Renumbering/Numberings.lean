import TransitionNetworks.Derivation
import TransitionNetworks.Proofs.Language
import Mathlib.Data.Finset.Lattice.Fold
import Mathlib.Data.Finset.Range

/-! # Numberings

A numbering gives new ids to states and rules. Whatever names states or rules is renumbered part by
part: items, frames and what a run makes of them, transitions and states. A network embeds into
another by a numbering that tells its ids apart if the other has its states and rules at the new ids
(`Network.Embeds`); the other may have more.

A numbering needs to tell apart the ids of the network only, but it may as well tell apart all
numbers (`Network.Embeds.exists_injective`). -/

namespace TransitionNetworks

/-- New ids for states and rules. -/
structure Numbering where
  /-- The new id of a state. -/
  state : Nat → Nat
  /-- The new id of a rule. -/
  rule : Nat → Nat

/-- The numbering that changes nothing. -/
def Numbering.refl : Numbering := ⟨id, id⟩

/-- A numbering that tells all ids apart. -/
structure Numbering.Injective (numbering : Numbering) : Prop where
  /-- States keep apart. -/
  state : Function.Injective numbering.state
  /-- Rules keep apart. -/
  rule : Function.Injective numbering.rule

/-- Leaving all ids alone mixes up none. -/
theorem Numbering.injective_refl : Numbering.refl.Injective :=
  ⟨Function.injective_id, Function.injective_id⟩

/-! ## What is renumbered -/

variable {numbering : Numbering}

/-- The same calls in the renumbered state. -/
def Item.renumber (numbering : Numbering) (item : Item) : Item :=
  item.withState (numbering.state item.state)

/-- The same call with the renumbered rule and state that follows. -/
def Frame.renumber (numbering : Numbering) (frame : Frame) : Frame :=
  ⟨numbering.state frame.follow, numbering.rule frame.rule, frame.position⟩

/-- The renumbered item at the same position. -/
def Place.renumber (numbering : Numbering) (place : Place) : Place :=
  ⟨place.position, place.item.renumber numbering⟩

/-- The same step from renumbered items. -/
def Provenance.renumber (numbering : Numbering) : Provenance → Provenance
  | seed => seed
  | epsilon prev => epsilon (prev.renumber numbering)
  | predict prev rule => predict (prev.renumber numbering) (numbering.rule rule)
  | complete stop caller rule =>
    complete (stop.renumber numbering) (caller.renumber numbering) (numbering.rule rule)
  | scan prev tokenIndex => scan (prev.renumber numbering) tokenIndex

/-- The same event of a renumbered rule. -/
def Event.renumber (numbering : Numbering) : Event → Event
  | enter rule => enter (numbering.rule rule)
  | exit rule => exit (numbering.rule rule)
  | consume tokenIndex => consume tokenIndex

/-- The same part in a renumbered rule. -/
def StateKind.renumber (numbering : Numbering) : StateKind → StateKind
  | basic => basic
  | start rule => start (numbering.rule rule)
  | stop rule => stop (numbering.rule rule)

/-- The same step to renumbered states. -/
def Transition.renumber (numbering : Numbering) : Transition → Transition
  | terminal matcher target => terminal matcher (numbering.state target)
  | call start follow rule =>
    call (numbering.state start) (numbering.state follow) (numbering.rule rule)
  | epsilon kind target => epsilon kind (numbering.state target)

/-- The renumbered part and transitions, these in the same order. -/
def State.renumber (numbering : Numbering) (state : State) : State :=
  ⟨state.kind.renumber numbering, state.transitions.map (Transition.renumber numbering)⟩

@[simp] theorem Item.state_renumber (item : Item) :
    (item.renumber numbering).state = numbering.state item.state := rfl

@[simp] theorem Item.stack_renumber (item : Item) :
    (item.renumber numbering).stack = item.stack := rfl

@[simp] theorem Item.renumber_refl : Item.renumber .refl = id := rfl

@[simp] theorem Frame.renumber_refl : Frame.renumber .refl = id := rfl

@[simp] theorem Place.renumber_refl : Place.renumber .refl = id := rfl

/-- Provenances stay if all ids do. -/
@[simp] theorem Provenance.renumber_refl : Provenance.renumber .refl = id := by
  funext why
  cases why <;> rfl

/-- The kind of a state stays if all ids do. -/
@[simp] theorem StateKind.renumber_refl (kind : StateKind) : kind.renumber .refl = kind := by
  cases kind <;> rfl

/-- Transitions stay if all ids do. -/
@[simp] theorem Transition.renumber_refl : Transition.renumber .refl = id := by
  funext transition
  cases transition <;> rfl

/-- A state stays if all ids do. -/
@[simp] theorem State.renumber_refl (state : State) : state.renumber .refl = state := by
  simp [State.renumber]

/-- Items that are told apart are told apart under their new ids. -/
theorem Numbering.Injective.item (injective : numbering.Injective) :
    Function.Injective (Item.renumber numbering) := by
  rintro ⟨state, origin, stack⟩ ⟨state', origin', stack'⟩ same
  simp only [Item.renumber, Item.withState, Item.mk.injEq] at same ⊢
  exact ⟨injective.state same.1, same.2⟩

/-- Frames that are told apart are told apart under their new ids. -/
theorem Numbering.Injective.frame (injective : numbering.Injective) :
    Function.Injective (Frame.renumber numbering) := by
  rintro ⟨follow, rule, position⟩ ⟨follow', rule', position'⟩ same
  simp only [Frame.renumber, Frame.mk.injEq] at same ⊢
  exact ⟨injective.state same.1, injective.rule same.2.1, same.2.2⟩

/-- The rule that stops in a renumbered state. -/
theorem State.stopRule?_renumber (numbering : Numbering) (state : State) :
    (state.renumber numbering).stopRule? = state.stopRule?.map numbering.rule := by
  obtain ⟨kind, transitions⟩ := state
  cases kind <;> rfl

/-! ## Embeddings -/

/-- **Embeddings.** The states and rules of a network are told apart under their new ids, under
which a whole network has the renumbered states, and rules that start and stop in renumbered states
under whatever names. -/
structure Network.Embeds (numbering : Numbering) (network whole : Network) : Prop where
  /-- States keep apart. -/
  state_inj : ∀ state < network.stateCount, ∀ other < network.stateCount,
    numbering.state state = numbering.state other → state = other
  /-- Rules keep apart. -/
  rule_inj : ∀ rule < network.ruleCount, ∀ other < network.ruleCount,
    numbering.rule rule = numbering.rule other → rule = other
  /-- The whole has the states under their new ids. -/
  states : ∀ id < network.stateCount, whole.state? (numbering.state id) =
    (network.state? id).map (State.renumber numbering)
  /-- Its rules start where the rules start. -/
  starts : ∀ id < network.ruleCount, (whole.rule? (numbering.rule id)).map Rule.start =
    (network.rule? id).map fun rule => numbering.state rule.start
  /-- Its rules stop where the rules stop. -/
  stops : ∀ id < network.ruleCount, (whole.rule? (numbering.rule id)).map Rule.stop =
    (network.rule? id).map fun rule => numbering.state rule.stop

namespace Network

variable {network whole : Network}

/-- A network embeds into itself. -/
theorem embeds_refl (network : Network) : network.Embeds .refl network where
  state_inj _ _ _ _ := id
  rule_inj _ _ _ _ := id
  states id _ := by
    cases here : network.state? id with
    | none => exact here
    | some state => rwa [Option.map_some, State.renumber_refl]
  starts _ _ := rfl
  stops _ _ := rfl

/-- A state of the network is there under its new id. -/
theorem Embeds.state? (embeds : network.Embeds numbering whole) {id : Nat} {state : State}
    (here : network.state? id = some state) :
    whole.state? (numbering.state id) = some (state.renumber numbering) := by
  have before : id < network.stateCount := (Array.getElem?_eq_some_iff.1 here).1
  rw [embeds.states id before, here]
  rfl

/-- A rule of the network is there under its new id. -/
theorem Embeds.exists_rule? (embeds : network.Embeds numbering whole) {id : Nat} {rule : Rule}
    (here : network.rule? id = some rule) : ∃ named, whole.rule? (numbering.rule id) = some named ∧
      named.start = numbering.state rule.start ∧ named.stop = numbering.state rule.stop := by
  have before : id < network.ruleCount := (Array.getElem?_eq_some_iff.1 here).1
  have starts := embeds.starts id before
  have stops := embeds.stops id before
  rw [here] at starts stops
  obtain ⟨named, there, start⟩ := Option.map_eq_some_iff.1 starts
  rw [there] at stops
  exact ⟨named, there, start, Option.some.inj stops⟩

end Network

/-! ## Numberings that agree on a network -/

/-- Numberings that give the states and rules of a network the same new ids. -/
structure Numbering.AlikeOn (network : Network) (numbering other : Numbering) : Prop where
  /-- The states have the same new ids. -/
  state : ∀ id state, network.state? id = some state → numbering.state id = other.state id
  /-- The rules have the same new ids. -/
  rule : ∀ id rule, network.rule? id = some rule → numbering.rule id = other.rule id

namespace Numbering.AlikeOn

variable {network whole : Network} {other : Numbering}

/-- An item in a state of the network is renumbered alike. -/
theorem item (alike : numbering.AlikeOn network other) {item : Item}
    (inState : ∃ state, network.state? item.state = some state) :
    item.renumber numbering = item.renumber other := by
  obtain ⟨state, here⟩ := inState
  rw [Item.renumber, Item.renumber, alike.state _ _ here]

/-- A transition that is not at fault is renumbered alike. -/
theorem transition (alike : numbering.AlikeOn network other) {source : Nat}
    {transition : Transition} (none : network.transitionFaults source transition = []) :
    transition.renumber numbering = transition.renumber other := by
  obtain ⟨targets, calls⟩ := (network.transitionFaults_eq_nil_iff source transition).1 none
  have states : ∀ target ∈ transition.references, numbering.state target = other.state target := by
    intro target member
    obtain ⟨state, there⟩ := targets target member
    exact alike.state _ _ there
  cases transition with
  | terminal matcher target =>
    rw [Transition.renumber, Transition.renumber, states target (List.mem_cons_self ..)]
  | epsilon kind target =>
    rw [Transition.renumber, Transition.renumber, states target (List.mem_cons_self ..)]
  | call start follow rule =>
    obtain ⟨called, there, -⟩ := Option.map_eq_some_iff.1 (calls start follow rule rfl)
    rw [Transition.renumber, Transition.renumber, states start (List.mem_cons_self ..),
      states follow (List.mem_cons_of_mem _ (List.mem_cons_self ..)), alike.rule _ _ there]

/-- A state of the network is renumbered alike. -/
theorem state_renumber (alike : numbering.AlikeOn network other) {id : Nat} {state : State}
    (here : network.state? id = some state) :
    state.renumber numbering = state.renumber other := by
  have none := (network.faults_eq_nil_iff.1 network.faultless).2 id state here
  obtain ⟨rules, transitions⟩ := (network.stateFaults_eq_nil_iff id state).1 none
  have kind : state.kind.renumber numbering = state.kind.renumber other := by
    cases part : state.kind with
    | basic => rfl
    | start rule | stop rule =>
      rw [part] at rules
      obtain ⟨named, there⟩ := rules rule rfl
      simp [StateKind.renumber, alike.rule _ _ there]
  rw [State.renumber, State.renumber, kind]
  exact congrArg _ (List.map_congr_left fun transition member =>
    alike.transition (transitions transition member))

/-- Whether a network embeds depends on the new ids of its states and rules only. -/
theorem embeds (alike : numbering.AlikeOn network other)
    (embeds : network.Embeds numbering whole) : network.Embeds other whole := by
  have states : ∀ id < network.stateCount, numbering.state id = other.state id :=
    fun id before => alike.state id _ (Array.getElem?_eq_getElem before)
  have rules : ∀ id < network.ruleCount, numbering.rule id = other.rule id :=
    fun id before => alike.rule id _ (Array.getElem?_eq_getElem before)
  refine ⟨?_, ?_, ?_, ?_, ?_⟩
  · intro state before another before'
    rw [← states state before, ← states another before']
    exact embeds.state_inj state before another before'
  · intro rule before another before'
    rw [← rules rule before, ← rules another before']
    exact embeds.rule_inj rule before another before'
  · intro id before
    rw [← states id before, embeds.states id before]
    refine Option.map_congr ?_
    intro state here
    exact alike.state_renumber here
  · intro id before
    rw [← rules id before, embeds.starts id before]
    refine Option.map_congr ?_
    intro rule here
    obtain ⟨state, there⟩ := network.exists_state?_start here
    exact alike.state _ _ there
  · intro id before
    rw [← rules id before, embeds.stops id before]
    refine Option.map_congr ?_
    intro rule here
    obtain ⟨state, there, -⟩ := network.stopsIn_stop here
    exact alike.state _ _ there

end Numbering.AlikeOn

/-- What tells the numbers below a bound apart agrees there with something that tells all numbers
apart. -/
theorem exists_injective_of_lt {f : Nat → Nat} {bound : Nat}
    (apart : ∀ x < bound, ∀ y < bound, f x = f y → x = y) :
    ∃ g, Function.Injective g ∧ ∀ x < bound, f x = g x := by
  -- numbers from the bound on are sent behind everything that is below it
  have top : ∀ x < bound, f x ≤ (Finset.range bound).sup f :=
    fun x before => Finset.le_sup (Finset.mem_range.2 before)
  refine ⟨fun x => if x < bound then f x else (Finset.range bound).sup f + 1 + x, ?_, ?_⟩
  · intro x y same
    by_cases first : x < bound
    · by_cases second : y < bound
      · simp only [first, second, if_true] at same
        exact apart x first y second same
      · have below := top x first
        simp only [first, second, if_true, if_false] at same
        omega
    · by_cases second : y < bound
      · have below := top y second
        simp only [first, second, if_true, if_false] at same
        omega
      · simp only [first, second, if_false] at same
        omega
  · intro x before
    exact (if_pos before).symm

/-- **A network embeds by a numbering that tells all ids apart** and agrees with the given one on
the network. -/
theorem Network.Embeds.exists_injective {network whole : Network}
    (embeds : network.Embeds numbering whole) :
    ∃ wide : Numbering, wide.Injective ∧ numbering.AlikeOn network wide ∧
      network.Embeds wide whole := by
  obtain ⟨state, stateInjective, states⟩ := exists_injective_of_lt embeds.state_inj
  obtain ⟨rule, ruleInjective, rules⟩ := exists_injective_of_lt embeds.rule_inj
  have alike : numbering.AlikeOn network ⟨state, rule⟩ :=
    ⟨fun id _ here => states id (Array.getElem?_eq_some_iff.1 here).1,
      fun id _ here => rules id (Array.getElem?_eq_some_iff.1 here).1⟩
  exact ⟨⟨state, rule⟩, ⟨stateInjective, ruleInjective⟩, alike, alike.embeds embeds⟩

end TransitionNetworks
