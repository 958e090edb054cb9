import TransitionNetworks.Proofs.Run.Links
import TransitionNetworks.Recognition.Sweep
import Mathlib.Data.List.Dedup
import Mathlib.Data.List.Nodup
import Mathlib.Data.List.Perm.Subperm
import Mathlib.Data.List.ProdSigma

/-! # How much a run can find

The frames of linked findings are those of a call site at a position
(`Findings.Linked.mem_framesUpTo`), so there are not more nodes than these
(`Findings.Linked.size_stackGraph_le`). A position has an item for each state and each stack at
most, since the stack of an item determines where it began, and the frame on top of the stack begins
no later than the position (`Findings.Linked.countAt_le`). So a position never holds more items than
its capacity says (`Findings.Linked.countAt_le_capacity`), however many calls begin behind it. -/

namespace TransitionNetworks

/-- The state that follows a call and the rule called. -/
def Transition.callSite? : Transition → Option (Nat × Nat)
  | terminal .. => none
  | call _ follow rule => some (follow, rule)
  | epsilon .. => none

namespace Network

/-- The call sites of a network, each once. -/
def callSites (network : Network) : List (Nat × Nat) :=
  ((network.states.toList.flatMap State.transitions).filterMap Transition.callSite?).dedup

/-- A call that a state offers has its site in the list. -/
theorem Offers.mem_callSites {network : Network} {state entry follow rule : Nat}
    (offers : network.Offers state (.call entry follow rule)) :
    (follow, rule) ∈ network.callSites := by
  obtain ⟨here, found, -, member⟩ := offers
  rw [callSites, List.mem_dedup, List.mem_filterMap]
  refine ⟨.call entry follow rule, List.mem_flatMap.2 ⟨here, ?_, member⟩, rfl⟩
  exact Array.mem_toList_iff.2 (Array.mem_of_getElem? found)

/-- There are no more call sites than calls. -/
theorem length_callSites_le (network : Network) :
    network.callSites.length ≤ network.callCount := by
  -- before repetitions are dropped, there is a site for each call
  have sites : ∀ transitions : List Transition,
      (transitions.filterMap Transition.callSite?).length =
        (transitions.filter Transition.isCall).length := by
    intro transitions
    induction transitions with
    | nil => rfl
    | cons transition rest ih =>
      cases transition <;>
        simp [List.filterMap_cons, List.filter_cons, Transition.callSite?, Transition.isCall, ih]
  refine Nat.le_trans (List.dedup_sublist _).length_le (Nat.le_of_eq ?_)
  rw [sites, callCount, List.filter_flatMap]

end Network

namespace Findings

variable {network : Network} {start : Nat} {input : List Token} {findings : Findings}

/-- No call has begun behind a position. -/
def BeganWithin (position : Nat) (findings : Findings) : Prop :=
  ∀ node frame, findings.stackGraph.frame? node = some frame → frame.position ≤ position

/-- All frames of a call site at the positions up to one. -/
def framesUpTo (network : Network) (position : Nat) : List Frame :=
  (network.callSites ×ˢ List.range (position + 1)).map fun (site, began) =>
    ⟨site.1, site.2, began⟩

/-- A frame has a caller, so it is that of a call site at the position where its call began. -/
theorem Linked.mem_framesUpTo (linked : findings.Linked network start input) {position node : Nat}
    {frame : Frame} (here : findings.stackGraph.frame? node = some frame)
    (before : frame.position ≤ position) : frame ∈ framesUpTo network position := by
  obtain ⟨caller, -, -, entry, offers⟩ := linked.exists_caller here
  refine List.mem_map.2 ⟨((frame.follow, frame.rule), frame.position), ?_, rfl⟩
  exact List.pair_mem_product.2 ⟨offers.mem_callSites, List.mem_range.2 (Nat.lt_succ_of_le before)⟩

/-- There are as many frames as call sites and positions. -/
theorem length_framesUpTo (network : Network) (position : Nat) :
    (framesUpTo network position).length = network.callSites.length * (position + 1) := by
  rw [framesUpTo, List.length_map, List.length_product, List.length_range]

/-- The nodes are the empty stack and one for each frame, of which there are as many as call sites
and positions. -/
theorem Linked.size_stackGraph_le (linked : findings.Linked network start input) {position : Nat}
    (within : findings.BeganWithin position) :
    findings.stackGraph.size ≤ 1 + network.callSites.length * (position + 1) := by
  have sub : findings.stackGraph.frames.toList ⊆ framesUpTo network position := by
    intro frame member
    obtain ⟨place, listed⟩ := Enumeration.mem_iff_exists_get?.1 member
    have here : findings.stackGraph.frame? (place + 1) = some frame := listed
    exact linked.mem_framesUpTo here (within _ _ here)
  have length := (List.subperm_of_subset findings.stackGraph.frames.toList_nodup sub).length_le
  rw [length_framesUpTo, Enumeration.length_toList] at length
  have size : findings.stackGraph.size = findings.stackGraph.frames.size + 1 :=
    findings.stackGraph.size_nodes
  omega

/-- An item found at a position is determined by its state and its stack. -/
theorem Linked.eq_of_has (linked : findings.Linked network start input) {position other : Nat}
    {item another : Item} (found : findings.Has position item)
    (found' : findings.Has other another) (state : item.state = another.state)
    (stack : item.stack = another.stack) : item = another := by
  -- both began at the first position, or both where the call of their node began
  have origin : item.origin = another.origin := by
    rcases linked.placed _ _ found with ⟨outside, began⟩ | ⟨frame, here, began, -⟩ <;>
      rcases linked.placed _ _ found' with ⟨outside', began'⟩ | ⟨frame', here', began', -⟩
    · rw [began, began']
    · rw [← stack, outside] at here'
      cases here'
    · rw [stack, outside'] at here
      cases here
    · rw [stack, here'] at here
      cases here
      rw [began, began']
  obtain ⟨_, _, _⟩ := item
  obtain ⟨_, _, _⟩ := another
  simp only [Item.mk.injEq]
  exact ⟨state, origin, stack⟩

/-- An item found has no frame exactly if it stands outside all calls. -/
theorem Linked.frame?_eq_none_iff (linked : findings.Linked network start input) {position : Nat}
    {item : Item} (found : findings.Has position item) :
    findings.stackGraph.frame? item.stack = none ↔ item.stack = emptyStack := by
  constructor
  · intro none
    rcases linked.placed position item found with ⟨outside, -⟩ | ⟨frame, here, -⟩
    · exact outside
    · rw [none] at here
      cases here
  · intro outside
    rw [outside, StackGraph.frame?_empty]

/-- Items found stand on the same stack if they have the same frame, or none. -/
theorem Linked.stack_eq_of_frame?_eq (linked : findings.Linked network start input)
    {position other : Nat} {item another : Item} (found : findings.Has position item)
    (found' : findings.Has other another)
    (same : findings.stackGraph.frame? item.stack = findings.stackGraph.frame? another.stack) :
    item.stack = another.stack := by
  cases here : findings.stackGraph.frame? another.stack with
  | none =>
    rw [here] at same
    rw [(linked.frame?_eq_none_iff found).1 same, (linked.frame?_eq_none_iff found').1 here]
  | some frame =>
    rw [here] at same
    exact StackGraph.frame?_inj same here

/-- **A position has an item for each state and each stack at most,** of which there are the empty
one and one for each frame of a call that has begun up to the position. -/
theorem Linked.countAt_le (linked : findings.Linked network start input) (position : Nat) :
    findings.chart.countAt position ≤
      network.stateCount * (1 + network.callSites.length * (position + 1)) := by
  -- the pairs of state and frame are different for different items, and all in a finite product
  have nodup : ((findings.chart.itemsAt position).toList.map
      fun item => (item.state, findings.stackGraph.frame? item.stack)).Nodup := by
    refine List.Nodup.map_on ?_ (findings.chart.itemsAt position).toList_nodup
    intro item found another found' same
    obtain ⟨state, frame⟩ := Prod.mk.inj same
    exact linked.eq_of_has found found' state (linked.stack_eq_of_frame?_eq found found' frame)
  have sub : ((findings.chart.itemsAt position).toList.map
      fun item => (item.state, findings.stackGraph.frame? item.stack)) ⊆
        List.range network.stateCount ×ˢ (none :: (framesUpTo network position).map some) := by
    intro pair member
    obtain ⟨item, found, rfl⟩ := List.mem_map.1 member
    obtain ⟨state, here⟩ := linked.inState position item found
    have before : item.state < network.stateCount := (Array.getElem?_eq_some_iff.1 here).1
    refine List.pair_mem_product.2 ⟨List.mem_range.2 before, ?_⟩
    rcases linked.placed position item found with ⟨outside, -⟩ | ⟨frame, there, -, began⟩
    · rw [outside]
      exact List.mem_cons_self ..
    · rw [there]
      exact List.mem_cons_of_mem _ (List.mem_map_of_mem (linked.mem_framesUpTo there began))
  have length := (List.subperm_of_subset nodup sub).length_le
  rwa [List.length_map, List.length_product, List.length_range, List.length_cons, List.length_map,
    length_framesUpTo, Enumeration.length_toList, Nat.add_comm _ 1] at length

/-- **No position overflows.** A position holds no more items than its capacity. -/
theorem Linked.countAt_le_capacity (linked : findings.Linked network start input)
    (position : Nat) : findings.chart.countAt position ≤ network.capacity position := by
  calc findings.chart.countAt position
      ≤ network.stateCount * (1 + network.callSites.length * (position + 1)) :=
        linked.countAt_le position
    _ ≤ network.stateCount * (1 + network.callCount * (position + 1)) :=
        Nat.mul_le_mul_left _ (Nat.add_le_add_left
          (Nat.mul_le_mul_right _ network.length_callSites_le) 1)

end Findings

end TransitionNetworks
