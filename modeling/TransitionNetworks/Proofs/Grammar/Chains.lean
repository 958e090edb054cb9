import TransitionNetworks.Grammar.Layout
import Mathlib.Data.List.Forall2

/-! # Where the states of a layout are

The layout of a grammar is one list of states in which later states are named before they are there.
What stands where is told by `LaidOut`: the start state of a rule leads to the heads of the chains
of its alternatives (`Blueprint.HasChain`), its stop state leads nowhere, and no rule stops anywhere
else. A part of the layout that begins at a state is a prefix of what is left when the states in
front are dropped, and so are the parts of the part (`parts_of_append`). `laidOut_layout` says that
layouts are laid out. -/

namespace TransitionNetworks

/-- **A chain of states** from one on, one for each step, behind the last of which is the stop
state. -/
def Blueprint.HasChain (blueprint : Blueprint) (stop : Nat) : Nat → Alternative Nat → Prop
  | here, [] => blueprint.state? here = some ⟨.basic, [.epsilon .plain stop]⟩
  | here, step :: rest =>
    blueprint.state? here = some ⟨.basic, [step.transition (here + 1)]⟩ ∧
      blueprint.HasChain stop (here + 1) rest

/-- **Laid out productions.** What stands where in a blueprint. -/
structure LaidOut (productions : List (Production Nat)) (blueprint : Blueprint) : Prop where
  /-- Rules have the places of their productions, and two states each. -/
  rules : ∀ rule, blueprint.rule? rule =
    productions[rule]?.map fun production => ⟨production.name, startState rule, stopState rule⟩
  /-- A start state leads to the heads of the chains of the alternatives, in order. -/
  start : ∀ rule production, productions[rule]? = some production → ∃ heads,
    blueprint.state? (startState rule) = some ⟨.start rule, heads.map (.epsilon .plain)⟩ ∧
      List.Forall₂ (fun alternative head => blueprint.HasChain (stopState rule) head alternative)
        production.alternatives heads
  /-- A stop state leads nowhere. -/
  stop : ∀ rule production, productions[rule]? = some production →
    blueprint.state? (stopState rule) = some ⟨.stop rule, []⟩
  /-- A rule stops in its stop state only. -/
  stops : ∀ state here rule, blueprint.state? state = some here → here.stopRule? = some rule →
    state = stopState rule

/-- The parts of a part of a list, where each of them begins. -/
theorem parts_of_append {α : Type} {list front back : List α} {here : Nat}
    (part : front ++ back <+: list.drop here) :
    front <+: list.drop here ∧ back <+: list.drop (here + front.length) := by
  obtain ⟨rest, same⟩ := part
  refine ⟨⟨back ++ rest, by rw [← same, List.append_assoc]⟩, ⟨rest, ?_⟩⟩
  rw [← List.drop_drop, ← same, List.append_assoc, List.drop_left]

/-- The first element of a part of a list is where the part begins. -/
theorem getElem?_of_part {α : Type} {list rest : List α} {x : α} {here : Nat}
    (part : x :: rest <+: list.drop here) : list[here]? = some x := by
  obtain ⟨others, same⟩ := part
  rw [← Nat.add_zero here, ← List.getElem?_drop, ← same]
  rfl

variable {blueprint : Blueprint}

/-- The chain of an alternative is one where it stands. -/
theorem hasChain_of_part {stop here : Nat} {alternative : Alternative Nat}
    (part : chain stop here alternative <+: blueprint.states.toList.drop here) :
    blueprint.HasChain stop here alternative := by
  induction alternative generalizing here with
  | nil =>
    have first := getElem?_of_part part
    rwa [Array.getElem?_toList] at first
  | cons step rest ih =>
    have first := getElem?_of_part part
    rw [Array.getElem?_toList] at first
    have split : [⟨.basic, [step.transition (here + 1)]⟩] ++ chain stop (here + 1) rest <+:
        blueprint.states.toList.drop here := part
    exact ⟨first, ih (parts_of_append split).2⟩

/-- The chains of consecutive alternatives are chains where their heads stand. -/
theorem forall₂_hasChain_of_part {stop here : Nat} {alternatives : List (Alternative Nat)}
    (part : chains stop here alternatives <+: blueprint.states.toList.drop here) :
    List.Forall₂ (fun alternative head => blueprint.HasChain stop head alternative) alternatives
      (chainHeads here alternatives) := by
  induction alternatives generalizing here with
  | nil => exact .nil
  | cons alternative rest ih =>
    obtain ⟨first, others⟩ := parts_of_append part
    rw [length_chain] at others
    exact .cons (hasChain_of_part first) (ih others)

/-- The chains of the rule at a place stand behind those of the rules in front of it. -/
theorem chains_part_of_bodies {states : List State} {productions : List (Production Nat)}
    {rule here place : Nat} {production : Production Nat}
    (part : bodies rule here productions <+: states.drop here)
    (found : productions[place]? = some production) :
    chains (stopState (rule + place)) (here + bodiesLength (productions.take place))
        production.alternatives <+:
      states.drop (here + bodiesLength (productions.take place)) := by
  induction productions generalizing rule here place with
  | nil => simp at found
  | cons first rest ih =>
    obtain ⟨front, back⟩ := parts_of_append part
    cases place with
    | zero =>
      cases found
      exact front
    | succ place =>
      -- the other rules are numbered from the next place on
      rw [length_chains] at back
      have behind := ih back found
      have place' : rule + 1 + place = rule + (place + 1) := by omega
      rw [place', Nat.add_assoc] at behind
      exact behind

/-- The boundaries of the rule at a place. -/
theorem boundaries_getElem? {productions : List (Production Nat)} (rule here : Nat) {place : Nat}
    {production : Production Nat} (found : productions[place]? = some production) :
    (boundaries rule here productions)[startState place]? =
        some ⟨.start (rule + place),
          (chainHeads (here + bodiesLength (productions.take place)) production.alternatives).map
            (.epsilon .plain)⟩ ∧
      (boundaries rule here productions)[stopState place]? = some ⟨.stop (rule + place), []⟩ := by
  induction productions generalizing rule here place with
  | nil => simp at found
  | cons first rest ih =>
    cases place with
    | zero =>
      cases found
      exact ⟨rfl, rfl⟩
    | succ place =>
      obtain ⟨starts, stops⟩ := ih (rule + 1) (here + chainsLength first.alternatives) found
      have place' : rule + 1 + place = rule + (place + 1) := by omega
      rw [place'] at starts stops
      rw [Nat.add_assoc] at starts
      exact ⟨starts, stops⟩

section States

variable (holds : State → Prop) (last : ∀ stop, holds ⟨.basic, [.epsilon .plain stop]⟩)
  (step : ∀ (step : Step Nat) (next : Nat), holds ⟨.basic, [step.transition next]⟩)

include last step

/-- What holds of the last state of a chain and of those in front of steps, holds in a chain. -/
theorem forall_mem_chain (stop here : Nat) (alternative : Alternative Nat) :
    ∀ state ∈ chain stop here alternative, holds state := by
  induction alternative generalizing here with
  | nil => exact List.forall_mem_singleton.2 (last stop)
  | cons first rest ih => exact List.forall_mem_cons.2 ⟨step first (here + 1), ih (here + 1)⟩

/-- What holds in chains, holds in consecutive ones. -/
theorem forall_mem_chains (stop here : Nat) (alternatives : List (Alternative Nat)) :
    ∀ state ∈ chains stop here alternatives, holds state := by
  induction alternatives generalizing here with
  | nil => exact fun _ member => absurd member List.not_mem_nil
  | cons alternative rest ih =>
    exact List.forall_mem_append.2
      ⟨forall_mem_chain holds last step stop here alternative, ih (here + chainLength alternative)⟩

/-- **What holds in chains, holds in the bodies of rules.** -/
theorem forall_mem_bodies (rule here : Nat) (productions : List (Production Nat)) :
    ∀ state ∈ bodies rule here productions, holds state := by
  induction productions generalizing rule here with
  | nil => exact fun _ member => absurd member List.not_mem_nil
  | cons production rest ih =>
    exact List.forall_mem_append.2 ⟨forall_mem_chains holds last step (stopState rule) here
      production.alternatives, ih (rule + 1) (here + chainsLength production.alternatives)⟩

end States

/-- No rule starts or stops inside the chains. -/
theorem kind_of_mem_bodies {productions : List (Production Nat)} {rule here : Nat} {state : State}
    (member : state ∈ bodies rule here productions) : state.kind = .basic :=
  forall_mem_bodies (fun state => state.kind = .basic) (fun _ => rfl) (fun _ _ => rfl) rule here
    productions state member

/-- The rule at a place has the name of its production and the boundaries of its place. -/
theorem ruleTable_getElem? (productions : List (Production Nat)) (rule place : Nat) :
    (ruleTable rule productions)[place]? = productions[place]?.map fun production =>
      ⟨production.name, startState (rule + place), stopState (rule + place)⟩ := by
  induction productions generalizing rule place with
  | nil => rfl
  | cons production rest ih =>
    cases place with
    | zero => rfl
    | succ place =>
      have place' : rule + 1 + place = rule + (place + 1) := by omega
      rw [ruleTable, List.getElem?_cons_succ, List.getElem?_cons_succ, ih, place']

/-- The rules of productions are told by the names of the productions. -/
theorem ruleTable_congr {productions others : List (Production Nat)} (rule : Nat)
    (names : productions.map Production.name = others.map Production.name) :
    ruleTable rule productions = ruleTable rule others := by
  induction productions generalizing others rule with
  | nil => rw [List.map_eq_nil_iff.1 names.symm]
  | cons production productions ih =>
    cases others with
    | nil => simp at names
    | cons other others =>
      obtain ⟨first, rest⟩ := List.cons.inj names
      rw [ruleTable, ruleTable, first, ih (rule + 1) rest]

/-- The rules of productions have the names of the productions. -/
theorem map_name_ruleTable (rule : Nat) (productions : List (Production Nat)) :
    (ruleTable rule productions).map Rule.name = productions.map Production.name := by
  induction productions generalizing rule with
  | nil => rfl
  | cons production rest ih => rw [ruleTable, List.map_cons, List.map_cons, ih]

/-- A state of a layout is a boundary of a rule or inside a chain. -/
theorem state?_layout (productions : List (Production Nat)) (state : Nat) :
    (layout productions).state? state =
      if state < 2 * productions.length then
        (boundaries 0 (2 * productions.length) productions)[state]?
      else
        (bodies 0 (2 * productions.length) productions)[state - 2 * productions.length]? := by
  rw [Blueprint.state?, layout, List.getElem?_toArray, List.getElem?_append, length_boundaries]

/-- In front of the chains are the start and the stop state of every rule. -/
theorem exists_boundary {count state : Nat} (before : state < 2 * count) :
    ∃ rule < count, state = startState rule ∨ state = stopState rule := by
  refine ⟨state / 2, by omega, ?_⟩
  unfold startState stopState
  omega

/-- **Layouts are laid out.** -/
theorem laidOut_layout (productions : List (Production Nat)) :
    LaidOut productions (layout productions) := by
  have inside : ∀ {place : Nat} {production : Production Nat},
      productions[place]? = some production → place < productions.length :=
    fun found => (List.getElem?_eq_some_iff.1 found).1
  have dropped : (layout productions).states.toList.drop (2 * productions.length) =
      bodies 0 (2 * productions.length) productions := by
    have length := length_boundaries 0 (2 * productions.length) productions
    rw [layout, List.toList_toArray, List.drop_append_of_le_length (Nat.le_of_eq length.symm),
      List.drop_eq_nil_of_le (Nat.le_of_eq length), List.nil_append]
  have bodiesPart : bodies 0 (2 * productions.length) productions <+:
      (layout productions).states.toList.drop (2 * productions.length) :=
    dropped.symm ▸ List.prefix_rfl
  refine ⟨?_, ?_, ?_, ?_⟩
  · intro rule
    have listed := ruleTable_getElem? productions 0 rule
    rw [Nat.zero_add] at listed
    rw [Blueprint.rule?, layout, List.getElem?_toArray, listed]
  · -- the chains of the rule begin at the heads that its start state names
    intro rule production found
    have bound := inside found
    have part := chains_part_of_bodies bodiesPart found
    obtain ⟨starts, -⟩ := boundaries_getElem? 0 (2 * productions.length) found
    rw [Nat.zero_add] at part starts
    refine ⟨_, ?_, forall₂_hasChain_of_part part⟩
    rw [state?_layout, if_pos (by unfold startState; omega), starts]
  · intro rule production found
    have bound := inside found
    obtain ⟨-, stops⟩ := boundaries_getElem? 0 (2 * productions.length) found
    rw [Nat.zero_add] at stops
    rw [state?_layout, if_pos (by unfold stopState; omega), stops]
  · intro state here rule found stops
    rw [State.stopRule?_eq_some_iff] at stops
    rw [state?_layout] at found
    by_cases before : state < 2 * productions.length
    · rw [if_pos before] at found
      obtain ⟨place, bound, isBoundary⟩ := exists_boundary before
      obtain ⟨starts, ends⟩ := boundaries_getElem? 0 (2 * productions.length)
        (List.getElem?_eq_getElem bound)
      rw [Nat.zero_add] at starts ends
      rcases isBoundary with rfl | rfl
      · rw [found] at starts
        cases starts
        cases stops
      · rw [found] at ends
        cases ends
        cases stops
        rfl
    · -- inside a chain no rule stops
      rw [if_neg before] at found
      have basic := kind_of_mem_bodies (List.mem_of_getElem? found)
      rw [basic] at stops
      cases stops

end TransitionNetworks
