import TransitionNetworks.Proofs.Run.Capacity
import Mathlib.Logic.Relation

/-! # Closing a position

An item is settled at its position (`Findings.Settled`) if everything that it leads to without a
token is found there: the targets of its epsilon transitions, the starts of the rules it calls with
itself registered as a caller, and, if the rule of its call stops in it, every caller in the state
that follows. The last is what later steps can undo, since callers may still come; but then the call
began at this very position, so the item is remembered and the caller makes up for it
(`Findings.Settled.closingStep`).

The loop that closes a position (`ClosingLoop`) has no bound of its own. It takes closing steps only
and settles all items (`ClosingLoop.settled`), since those in front of the cursor are settled; and
it comes to an end, since the cursor is behind the last item when it comes to the capacity of the
position (`Findings.Linked.loop_close`). -/

namespace TransitionNetworks

/-- Any number of steps that close a position. -/
abbrev Closing (network : Network) (position : Nat) : Findings → Findings → Prop :=
  Relation.ReflTransGen (ClosingStep network position)

namespace Findings

/-- What a transition that needs no token leads to is found. -/
def Followed (findings : Findings) (position : Nat) (item : Item) : Transition → Prop
  | .terminal .. => True
  | .call entry follow rule => ∃ node,
      findings.stackGraph.frame? node = some ⟨follow, rule, position⟩ ∧
        findings.Has position ⟨entry, position, node⟩ ∧
          item ∈ findings.stackGraph.callers node
  | .epsilon _ target => findings.Has position (item.withState target)

/-- **A settled item** has led to everything that it leads to without a token. -/
structure Settled (network : Network) (position : Nat) (item : Item) (findings : Findings) :
    Prop where
  /-- The transitions that its state offers are followed. -/
  followed : ∀ transition, network.Offers item.state transition →
    findings.Followed position item transition
  /-- If the rule of its call stops, all callers go on. -/
  returned : ∀ frame, findings.stackGraph.frame? item.stack = some frame →
    network.StopsIn frame.rule item.state → ∀ caller ∈ findings.stackGraph.callers item.stack,
      findings.Has position (caller.withState frame.follow)
  /-- If the rule of its call stops where the call began, that is remembered. -/
  remembered : ∀ frame, findings.stackGraph.frame? item.stack = some frame →
    network.StopsIn frame.rule item.state → frame.position = position →
      item ∈ findings.stackGraph.emptyReturns item.stack

variable {network : Network} {start : Nat} {input : List Token} {findings later : Findings}
  {position : Nat} {item : Item}

/-- What a transition leads to stays found. -/
theorem Followed.mono (grown : findings.Extends later) {transition : Transition}
    (followed : findings.Followed position item transition) :
    later.Followed position item transition := by
  cases transition with
  | terminal => trivial
  | call entry follow rule =>
    obtain ⟨node, here, found, registered⟩ := followed
    exact ⟨node, grown.frames _ _ here, grown.has found, grown.mem_callers registered⟩
  | epsilon kind target => exact grown.has followed

/-- The frame on the stack of an item found is there for good. -/
theorem Linked.frame?_eq (linked : findings.Linked network start input)
    (grown : findings.Extends later) (found : findings.Has position item) {frame : Frame}
    (here : later.stackGraph.frame? item.stack = some frame) :
    findings.stackGraph.frame? item.stack = some frame ∧ frame.position ≤ position := by
  -- an item outside all calls never has a frame, and any other keeps the one it has
  rcases linked.placed _ _ found with ⟨outside, -⟩ | ⟨old, there, -, before⟩
  · rw [outside] at here
    cases here
  · rw [grown.frames _ _ there] at here
    cases here
    exact ⟨there, before⟩

/-- An item settled stays so as long as every new caller goes on. -/
theorem Settled.mono (linked : findings.Linked network start input)
    (grown : findings.Extends later) (found : findings.Has position item)
    (newCallers : ∀ frame, findings.stackGraph.frame? item.stack = some frame →
      frame.position ≤ position → network.StopsIn frame.rule item.state →
      ∀ caller ∈ later.stackGraph.callers item.stack,
        caller ∉ findings.stackGraph.callers item.stack →
        later.Has position (caller.withState frame.follow))
    (settled : findings.Settled network position item) :
    later.Settled network position item where
  followed transition offers := (settled.followed transition offers).mono grown
  returned frame here stops caller registered := by
    obtain ⟨there, before⟩ := linked.frame?_eq grown found here
    -- a caller known before has gone on before
    by_cases known : caller ∈ findings.stackGraph.callers item.stack
    · exact grown.has (settled.returned frame there stops caller known)
    · exact newCallers frame there before stops caller registered known
  remembered frame here stops began := by
    obtain ⟨there, -⟩ := linked.frame?_eq grown found here
    exact grown.mem_emptyReturns (settled.remembered frame there stops began)

/-- A prediction at a position settles nothing wrong at that position or in front of it: the new
caller makes up for the returns that it missed. -/
theorem Settled.predict (linked : findings.Linked network start input)
    (found : findings.Has position item) (entry : Nat) (frame : Frame) (caller : Item)
    (before : position ≤ frame.position) (settled : findings.Settled network position item) :
    (findings.predict frame.position entry frame.follow frame.rule caller).Settled
      network position item := by
  have grown := findings.extends_predict frame.position entry frame.follow frame.rule caller
  apply settled.mono linked grown found
  intro other there began stops another registered new
  rw [predict_eq] at registered ⊢
  rw [stackGraph_returnAll, enter, stackGraph_discover] at registered
  rcases (StackGraph.mem_callers_register _ _ _ _ _).1 registered with old | ⟨node, rfl⟩
  · exact absurd old new
  · -- the caller is new on the node of the item, which is then the node of the call entered
    have same : other = frame := by
      have pushed := (StackGraph.frame?_push findings.stackGraph frame other _).2 (Or.inl there)
      rw [node, StackGraph.frame?_push_self] at pushed
      exact (Option.some.inj pushed).symm
    subst same
    -- the call began neither in front of the item nor behind it, so the item is remembered
    have here : position = other.position := by omega
    have remembered := settled.remembered other there stops here.symm
    rw [node] at remembered new
    refine (has_returnAll _ _ _ _ _ _).2 (Or.inr ⟨here, (item, another), ?_, rfl⟩)
    exact mem_lateReturns.2 ⟨new, remembered, rfl⟩

/-- **Closing steps unsettle nothing** at their position or in front of it. -/
theorem Settled.closingStep (linked : findings.Linked network start input) {now : Nat}
    (step : ClosingStep network now findings later) (before : position ≤ now)
    (found : findings.Has position item) (settled : findings.Settled network position item) :
    later.Settled network position item := by
  have grown := step.grows
  cases step with
  | @predict caller entry follow rule calls offers =>
    exact settled.predict linked found entry ⟨follow, rule, now⟩ caller before
  | @epsilon other kind target foundOther offers =>
    apply settled.mono linked grown found
    intro frame _ _ _ caller registered new
    rw [stackGraph_discover] at registered
    exact absurd registered new
  | @complete stop rule foundStop stops =>
    apply settled.mono linked grown found
    intro frame _ _ _ caller registered new
    rw [callers_complete] at registered
    exact absurd registered new

end Findings

/-! ## Many closing steps -/

section

variable {network : Network} {findings later : Findings} {position : Nat}

/-- Findings grow when a position is closed. -/
theorem Closing.grows (steps : Closing network position findings later) :
    findings.Extends later := by
  induction steps with
  | refl => exact Findings.Extends.refl findings
  | tail _ step ih => exact ih.trans step.grows

/-- Closing a position finds items there only. -/
theorem ClosingStep.has_iff {other : Nat} (step : ClosingStep network position findings later)
    (different : other ≠ position) (item : Item) :
    later.Has other item ↔ findings.Has other item := by
  cases step with
  | @predict caller entry follow rule found offers =>
    rw [Findings.predict_eq entry ⟨follow, rule, position⟩, Findings.has_returnAll, Findings.enter,
      Findings.has_discover]
    simp [different]
  | @epsilon other kind target found offers =>
    simp [different]
  | @complete stop rule found stops =>
    rcases Findings.complete_cases position stop rule findings with
      same | ⟨frame, -, -, returns⟩ | ⟨called, noted⟩
    · rw [same]
    · rw [returns, Findings.has_returnAll]
      simp [different]
    · rw [noted, Findings.has_note]

/-- Closing a position finds nothing elsewhere, however many steps it takes. -/
theorem Closing.has_iff {other : Nat} (steps : Closing network position findings later)
    (different : other ≠ position) (item : Item) :
    later.Has other item ↔ findings.Has other item := by
  induction steps with
  | refl => rfl
  | tail _ step ih => exact (step.has_iff different item).trans ih

/-- The calls that begin while a position is closed begin there. -/
theorem ClosingStep.frame?_of_frame? (step : ClosingStep network position findings later)
    {node : Nat} {frame : Frame} (here : later.stackGraph.frame? node = some frame) :
    findings.stackGraph.frame? node = some frame ∨ frame.position = position := by
  cases step with
  | @predict caller entry follow rule found offers =>
    rw [Findings.predict_eq entry ⟨follow, rule, position⟩, Findings.stackGraph_returnAll,
      Findings.enter, Findings.stackGraph_discover] at here
    rcases (StackGraph.frame?_register _ _ _ _ _).1 here with old | ⟨-, rfl⟩
    · exact Or.inl old
    · exact Or.inr rfl
  | @epsilon other kind target found offers =>
    rw [Findings.stackGraph_discover] at here
    exact Or.inl here
  | @complete stop rule found stops =>
    rw [Findings.frame?_complete] at here
    exact Or.inl here

/-- All calls that begin while a position is closed begin there. -/
theorem Closing.frame?_of_frame? (steps : Closing network position findings later)
    {node : Nat} {frame : Frame} (here : later.stackGraph.frame? node = some frame) :
    findings.stackGraph.frame? node = some frame ∨ frame.position = position := by
  induction steps with
  | refl => exact Or.inl here
  | tail _ step ih =>
    rcases step.frame?_of_frame? here with old | now
    · exact ih old
    · exact Or.inr now

end

namespace Findings

variable {network : Network} {start : Nat} {input : List Token} {findings later : Findings}
  {position : Nat} {item : Item}

/-- Closing a position keeps findings linked. -/
theorem Linked.closing (linked : findings.Linked network start input)
    (steps : Closing network position findings later) : later.Linked network start input := by
  induction steps with
  | refl => exact linked
  | tail _ step ih => exact ih.closingStep step

/-- Closing a position unsettles nothing there or in front of it. -/
theorem Settled.closing (linked : findings.Linked network start input) {now : Nat}
    (steps : Closing network now findings later) (before : position ≤ now)
    (found : findings.Has position item) (settled : findings.Settled network position item) :
    later.Settled network position item := by
  induction steps with
  | refl => exact settled
  | tail steps step ih =>
    exact ih.closingStep (linked.closing steps) step before ((Closing.grows steps).has found)

/-! ## Expanding items -/

/-- Predicting a rule leads to what the call leads to. -/
theorem followed_predict (findings : Findings) (item : Item) (entry : Nat) (frame : Frame) :
    (findings.predict frame.position entry frame.follow frame.rule item).Followed
      frame.position item (.call entry frame.follow frame.rule) := by
  rw [predict_eq]
  -- the node of the frame is the one, and the returns made up for leave what was entered there
  refine ⟨(findings.stackGraph.push frame).1, ?_, (extends_returnAll _ _ _ _).has ?_, ?_⟩
  · rw [stackGraph_returnAll]
    exact frame?_enter_self _ _ _ _ _
  · exact (has_discover _ _ _ _ _ _).2 (Or.inr ⟨rfl, rfl⟩)
  · rw [stackGraph_returnAll]
    exact mem_callers_enter_self _ _ _ _ _

/-- Following a transition that an item offers is a closing step or nothing, and leads to what the
transition leads to. -/
theorem follow_closing (found : findings.Has position item) {transition : Transition}
    (offers : network.Offers item.state transition) :
    Closing network position findings (findings.follow position item transition) ∧
      (findings.follow position item transition).Followed position item transition := by
  cases transition with
  | terminal matcher target => exact ⟨.refl, trivial⟩
  | epsilon kind target =>
    refine ⟨.single (.epsilon found offers), ?_⟩
    show (findings.discover position (item.withState target) (.epsilon item)).Has position
      (item.withState target)
    exact (has_discover _ _ _ _ _ _).2 (Or.inr ⟨rfl, rfl⟩)
  | call entry follow rule =>
    exact ⟨.single (.predict found offers),
      followed_predict findings item entry ⟨follow, rule, position⟩⟩

/-- Following transitions one after the other leads to what each of them leads to. -/
theorem foldl_follow_closing (found : findings.Has position item) (transitions : List Transition)
    (offers : ∀ transition ∈ transitions, network.Offers item.state transition) :
    let later := transitions.foldl
      (fun findings transition => findings.follow position item transition) findings
    Closing network position findings later ∧
      ∀ transition ∈ transitions, later.Followed position item transition := by
  induction transitions generalizing findings with
  | nil => exact ⟨.refl, fun _ member => absurd member List.not_mem_nil⟩
  | cons transition rest ih =>
    obtain ⟨first, followed⟩ := follow_closing found (offers transition (List.mem_cons_self ..))
    obtain ⟨steps, others⟩ := ih ((Closing.grows first).has found)
      fun other member => offers other (List.mem_cons_of_mem _ member)
    refine ⟨first.trans steps, ?_⟩
    intro other member
    rcases List.mem_cons.1 member with rfl | member
    · exact followed.mono (Closing.grows steps)
    · exact others other member

/-- An item in which a rule stops is expanded by the returns. -/
theorem expand_eq_complete {state : State} {rule : Nat}
    (here : network.state? item.state = some state) (stop : state.stopRule? = some rule) :
    findings.expand network position item = findings.complete position item rule := by
  simp [expand, here, stop]

/-- An item in which no rule stops is expanded by its transitions. -/
theorem expand_eq_foldl {state : State} (here : network.state? item.state = some state)
    (goesOn : state.stopRule? = none) :
    findings.expand network position item = state.transitions.foldl
      (fun findings transition => findings.follow position item transition) findings := by
  simp [expand, here, goesOn]

/-- Expanding an item found takes closing steps. -/
theorem Linked.expand_closing (linked : findings.Linked network start input)
    (found : findings.Has position item) :
    Closing network position findings (findings.expand network position item) := by
  obtain ⟨state, here⟩ := linked.inState position item found
  cases stop : state.stopRule? with
  | some rule =>
    rw [expand_eq_complete here stop]
    exact .single (.complete found ⟨state, here, stop⟩)
  | none =>
    rw [expand_eq_foldl here stop]
    exact (foldl_follow_closing found state.transitions
      fun transition member => ⟨state, here, stop, member⟩).1

/-- A rule that stops settles the item in which it stops. -/
theorem settled_complete {rule : Nat} (stops : network.StopsIn rule item.state) :
    (findings.complete position item rule).Settled network position item := by
  refine ⟨?_, ?_, ?_⟩
  · intro transition offers
    exact absurd stops offers.not_stopsIn
  · -- the returns find every caller that is registered, and register no other
    intro frame here stopsHere caller registered
    rw [frame?_complete] at here
    rw [callers_complete] at registered
    cases stops.unique stopsHere
    rw [complete_eq here, has_returnAll]
    exact Or.inr ⟨rfl, (item, caller), List.mem_map_of_mem registered, rfl⟩
  · intro frame here stopsHere began
    rw [frame?_complete] at here
    cases stops.unique stopsHere
    rw [complete_eq here, stackGraph_returnAll]
    exact (mem_emptyReturns_remember here _ _ _).2 (Or.inr ⟨began, rfl, rfl⟩)

/-- Expanding an item found settles it. -/
theorem Linked.settled_expand (linked : findings.Linked network start input)
    (found : findings.Has position item) :
    (findings.expand network position item).Settled network position item := by
  obtain ⟨state, here⟩ := linked.inState position item found
  cases stop : state.stopRule? with
  | some rule =>
    rw [expand_eq_complete here stop]
    exact settled_complete ⟨state, here, stop⟩
  | none =>
    rw [expand_eq_foldl here stop]
    -- no rule stops in a state that goes on, so its transitions are all there is to follow
    have goesOn : ∀ rule, ¬ network.StopsIn rule item.state := by
      intro rule stops
      rw [stops.of_state? here] at stop
      cases stop
    refine ⟨?_, ?_, ?_⟩
    · intro transition offers
      obtain ⟨-, member⟩ := offers.of_state? here
      exact (foldl_follow_closing found state.transitions
        fun transition member => ⟨state, here, stop, member⟩).2 transition member
    · intro frame _ stops
      exact absurd stops (goesOn _)
    · intro frame _ stops
      exact absurd stops (goesOn _)

/-! ## The closing loop -/

/-- An item keeps its number at its position. -/
theorem Extends.item?_eq (grown : findings.Extends later) {n : Nat}
    (known : findings.chart.item? position n = some item) :
    later.chart.item? position n = some item := by
  rw [Chart.item?, ← Enumeration.getElem?_toList] at known ⊢
  obtain ⟨rest, same⟩ := grown.items position
  have before := (List.getElem?_eq_some_iff.1 known).1
  rw [← same, List.getElem?_append_left before]
  exact known

/-- An item found has a number at its position. -/
theorem has_iff_exists_item? (findings : Findings) (position : Nat) (item : Item) :
    findings.Has position item ↔ ∃ n, n < findings.chart.countAt position ∧
      findings.chart.item? position n = some item := by
  constructor
  · intro found
    obtain ⟨n, here⟩ := Enumeration.mem_iff_exists_get?.1 found
    exact ⟨n, (Array.getElem?_eq_some_iff.1 here).1, here⟩
  · rintro ⟨n, -, here⟩
    exact Enumeration.mem_iff_exists_get?.2 ⟨n, here⟩

/-- If the items in front of a cursor are settled, they stay so when the item at the cursor is
expanded, and that item is settled too. -/
theorem Linked.settled_expand_succ (linked : findings.Linked network start input) {cursor : Nat}
    (here : findings.chart.item? position cursor = some item)
    (settled : ∀ n other, n < cursor → findings.chart.item? position n = some other →
      findings.Settled network position other) (n : Nat) (another : Item) (before : n < cursor + 1)
    (there : (findings.expand network position item).chart.item? position n = some another) :
    (findings.expand network position item).Settled network position another := by
  have found : findings.Has position item := Enumeration.mem_iff_exists_get?.2 ⟨cursor, here⟩
  have steps := linked.expand_closing found
  have grown := Closing.grows steps
  rcases Nat.lt_succ_iff_lt_or_eq.1 before with before | rfl
  · -- an item in front of the cursor was there before
    have known : n < findings.chart.countAt position :=
      Nat.lt_trans before (Array.getElem?_eq_some_iff.1 here).1
    have old : findings.chart.item? position n =
        some (findings.chart.itemsAt position).elements[n] := Array.getElem?_eq_getElem known
    have same := grown.item?_eq old
    rw [there] at same
    cases same
    exact (settled n _ before old).closing linked steps (Nat.le_refl _)
      (Enumeration.mem_iff_exists_get?.2 ⟨n, old⟩)
  · -- the item at the cursor is the one expanded
    have same := grown.item?_eq here
    rw [there] at same
    cases same
    exact linked.settled_expand found

end Findings

/-- **The closing loop.** Items are expanded from a cursor on until there is none at the cursor;
nothing bounds how often. -/
inductive ClosingLoop (network : Network) (position : Nat) : Nat → Findings → Findings → Prop
  /-- The loop ends behind the last item. -/
  | stop {cursor : Nat} {findings : Findings}
      (ended : findings.chart.item? position cursor = none) :
      ClosingLoop network position cursor findings findings
  /-- The item at the cursor is expanded, and the loop goes on behind it. -/
  | next {cursor : Nat} {findings later : Findings} {item : Item}
      (here : findings.chart.item? position cursor = some item)
      (rest : ClosingLoop network position (cursor + 1) (findings.expand network position item)
        later) : ClosingLoop network position cursor findings later

section

variable {network : Network} {start : Nat} {input : List Token} {findings later other : Findings}
  {position cursor : Nat}

/-- The closing loop comes to one end only. -/
theorem ClosingLoop.unique (loop : ClosingLoop network position cursor findings later)
    (loop' : ClosingLoop network position cursor findings other) : later = other := by
  induction loop with
  | stop ended =>
    cases loop' with
    | stop => rfl
    | next here =>
      rw [ended] at here
      cases here
  | next here rest ih =>
    cases loop' with
    | stop ended =>
      rw [ended] at here
      cases here
    | next here' rest' =>
      rw [here] at here'
      cases here'
      exact ih rest'

/-- The closing loop takes closing steps. -/
theorem ClosingLoop.closing (loop : ClosingLoop network position cursor findings later)
    (linked : findings.Linked network start input) : Closing network position findings later := by
  induction loop with
  | stop => exact .refl
  | next here rest ih =>
    have steps := linked.expand_closing (Enumeration.mem_iff_exists_get?.2 ⟨_, here⟩)
    exact steps.trans (ih (linked.closing steps))

/-- The closing loop settles all items, if those in front of the cursor are settled. -/
theorem ClosingLoop.settled (loop : ClosingLoop network position cursor findings later)
    (linked : findings.Linked network start input)
    (settled : ∀ n item, n < cursor → findings.chart.item? position n = some item →
      findings.Settled network position item) :
    ∀ item, later.Has position item → later.Settled network position item := by
  induction loop with
  | stop ended =>
    -- the cursor is behind the last item
    intro item found
    obtain ⟨n, known, there⟩ := (Findings.has_iff_exists_item? _ position item).1 found
    exact settled n item (Nat.lt_of_lt_of_le known (Array.getElem?_eq_none_iff.1 ended)) there
  | next here rest ih =>
    have steps := linked.expand_closing (Enumeration.mem_iff_exists_get?.2 ⟨_, here⟩)
    exact ih (linked.closing steps) (linked.settled_expand_succ here settled)

end

namespace Findings

variable {network : Network} {start : Nat} {input : List Token} {findings : Findings}
  {position : Nat} {item : Item}

/-- Expansions go through the closing loop to its end if the fuel reaches as far as the capacity:
when it runs out, the cursor is at the capacity, behind which there is no item. -/
theorem Linked.loop_expandFrom (linked : findings.Linked network start input)
    (fuel cursor : Nat) (enough : network.capacity position ≤ cursor + fuel) :
    ClosingLoop network position cursor findings
      (findings.expandFrom network position fuel cursor) := by
  induction fuel generalizing findings cursor with
  | zero =>
    have capacity := linked.countAt_le_capacity position
    exact .stop (Array.getElem?_eq_none (Nat.le_trans capacity enough))
  | succ fuel ih =>
    rw [Findings.expandFrom]
    cases here : findings.chart.item? position cursor with
    | none => exact .stop here
    | some item =>
      have steps := linked.expand_closing (Enumeration.mem_iff_exists_get?.2 ⟨cursor, here⟩)
      exact .next here (ih (linked.closing steps) (cursor + 1) (by omega))

/-- **Closing a position goes through the closing loop to its end.** -/
theorem Linked.loop_close (linked : findings.Linked network start input) (position : Nat) :
    ClosingLoop network position 0 findings (findings.close network position) :=
  linked.loop_expandFrom _ 0 (Nat.le_of_eq (Nat.zero_add _).symm)

/-- Closing a position takes closing steps. -/
theorem Linked.close_closing (linked : findings.Linked network start input) (position : Nat) :
    Closing network position findings (findings.close network position) :=
  (linked.loop_close position).closing linked

/-- **Closing a position settles all of its items.** -/
theorem Linked.settled_close (linked : findings.Linked network start input)
    (found : (findings.close network position).Has position item) :
    (findings.close network position).Settled network position item :=
  (linked.loop_close position).settled linked
    (fun _ _ before => absurd before (Nat.not_lt_zero _)) item found

end Findings

end TransitionNetworks
