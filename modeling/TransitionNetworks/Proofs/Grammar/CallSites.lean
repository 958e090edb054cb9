import TransitionNetworks.Proofs.Grammar.Decision
import TransitionNetworks.Proofs.Run.Capacity

/-! # Call sites of a grammar

The network of a grammar calls rules where the grammar does: read in the order of the states, its
call transitions call the rules that the call steps of the grammar name, in reading order
(`calledRules_layout`). So there are at most as many call sites of a rule as call steps that name it
(`Grammar.length_callSitesOf_le`). -/

namespace TransitionNetworks

universe u

/-- The rule that a step calls. -/
def Step.callee? {ρ : Type u} : Step ρ → Option ρ
  | consume _ => none
  | call rule => some rule
  | epsilon _ => none

/-- The rules that the call steps of productions call, in reading order. -/
def callees {ρ : Type u} (productions : List (Production ρ)) : List ρ :=
  (productions.flatMap Production.alternatives).flatten.filterMap Step.callee?

/-- How many call steps of a grammar name the rule at a place. -/
def Grammar.callsTo (grammar : Grammar) (rule : Nat) : Nat :=
  (callees grammar.productions).countP fun name => grammar.names[rule]? = some name

/-- The rules that the call transitions of states call, in order. -/
def calledRules (states : List State) : List Nat :=
  ((states.flatMap State.transitions).filterMap Transition.callSite?).map Prod.snd

namespace Network

/-- The call sites of a rule. -/
def callSitesOf (network : Network) (rule : Nat) : List (Nat × Nat) :=
  network.callSites.filter fun site => site.2 = rule

/-- A rule has at most as many call sites as calls. -/
theorem length_callSitesOf_le (network : Network) (rule : Nat) :
    (network.callSitesOf rule).length ≤ (calledRules network.states.toList).count rule := by
  rw [callSitesOf, ← List.countP_eq_length_filter, calledRules, List.count, List.countP_map]
  exact (List.dedup_sublist _).countP_le

end Network

/-- States in a row call the rules that they call, in order. -/
theorem calledRules_append (states others : List State) :
    calledRules (states ++ others) = calledRules states ++ calledRules others := by
  simp [calledRules]

/-- A chain calls what the steps of its alternative call. -/
theorem calledRules_chain (stop here : Nat) (alternative : Alternative Nat) :
    calledRules (chain stop here alternative) = alternative.filterMap Step.callee? := by
  induction alternative generalizing here with
  | nil => rfl
  | cons step rest ih =>
    have split : calledRules (chain stop here (step :: rest)) =
        calledRules [⟨.basic, [step.transition (here + 1)]⟩] ++
          calledRules (chain stop (here + 1) rest) := calledRules_append [_] _
    rw [split, ih]
    cases step <;> rfl

/-- Chains call what the steps of their alternatives call. -/
theorem calledRules_chains (stop here : Nat) (alternatives : List (Alternative Nat)) :
    calledRules (chains stop here alternatives) =
      alternatives.flatten.filterMap Step.callee? := by
  induction alternatives generalizing here with
  | nil => rfl
  | cons alternative rest ih =>
    rw [chains, calledRules_append, calledRules_chain, ih, List.flatten_cons,
      List.filterMap_append]

/-- The bodies of rules call what their productions call. -/
theorem calledRules_bodies (rule here : Nat) (productions : List (Production Nat)) :
    calledRules (bodies rule here productions) = callees productions := by
  induction productions generalizing rule here with
  | nil => rfl
  | cons production rest ih =>
    rw [bodies, calledRules_append, calledRules_chains, ih, callees, callees, List.flatMap_cons,
      List.flatten_append, List.filterMap_append]

/-- Start and stop states call nothing. -/
theorem calledRules_boundaries (rule here : Nat) (productions : List (Production Nat)) :
    calledRules (boundaries rule here productions) = [] := by
  induction productions generalizing rule here with
  | nil => rfl
  | cons production rest ih =>
    have split : calledRules (boundaries rule here (production :: rest)) =
        calledRules [⟨.start rule, (chainHeads here production.alternatives).map (.epsilon .plain)⟩,
          ⟨.stop rule, []⟩] ++
          calledRules (boundaries (rule + 1) (here + chainsLength production.alternatives) rest) :=
      calledRules_append [_, _] _
    rw [split, ih, List.append_nil]
    -- epsilon transitions have no call site
    simp [calledRules, List.filterMap_map, Transition.callSite?, Function.comp_def]

/-- **A layout calls what its productions call.** -/
theorem calledRules_layout (productions : List (Production Nat)) :
    calledRules (layout productions).states.toList = callees productions := by
  rw [layout, List.toList_toArray, calledRules_append, calledRules_boundaries, calledRules_bodies,
    List.nil_append]

namespace Grammar

variable {grammar : Grammar} {network : Network}

/-- Corresponding productions call corresponding rules. -/
theorem forall₂_callees {ρ σ : Type} {rules : ρ → σ → Prop} {productions : List (Production ρ)}
    {others : List (Production σ)}
    (all : List.Forall₂ (Production.Corresponds rules) productions others) :
    List.Forall₂ rules (callees productions) (callees others) := by
  have alternatives := List.rel_flatMap all fun _ _ corresponds => corresponds.alternatives
  refine List.rel_filterMap ?_ (List.rel_flatten alternatives)
  intro step other corresponds
  cases corresponds with
  | consume matcher => exact .none
  | call same => exact .some same
  | epsilon kind => exact .none

/-- A rule is called as often as it is named, if the rules called are those named. -/
theorem countP_eq_count (unique : grammar.names.Nodup) {names : List String} {rules : List Nat}
    (all : List.Forall₂ (fun name called => grammar.lookup name = .ok called) names rules)
    (rule : Nat) :
    names.countP (fun name => grammar.names[rule]? = some name) = rules.count rule := by
  induction all with
  | nil => rfl
  | @cons name called names rules found _ ih =>
    have same : grammar.names[rule]? = some name ↔ called = rule := by
      rw [← lookup_eq_ok_iff unique, found, Except.ok.injEq]
    simp [List.countP_cons, List.count_cons, ih, same]

/-- A grammar that is resolved calls the rule at a place as often as it names it. -/
theorem callsTo_eq_count {productions : List (Production Nat)}
    (resolved : grammar.resolve = .ok productions) (rule : Nat) :
    grammar.callsTo rule = (callees productions).count rule := by
  obtain ⟨unique, all⟩ := corresponds_of_resolve resolved
  exact countP_eq_count unique (forall₂_callees all) rule

/-- **A rule has at most as many call sites as call steps name it.** -/
theorem length_callSitesOf_le (built : grammar.toNetwork = .ok network) (rule : Nat) :
    (network.callSitesOf rule).length ≤ grammar.callsTo rule := by
  obtain ⟨productions, resolved, same⟩ := exists_resolved built
  have calls := network.length_callSitesOf_le rule
  have states : network.states = (layout productions).states := by rw [← same]
  rwa [states, calledRules_layout, ← callsTo_eq_count resolved] at calls

end Grammar

end TransitionNetworks
