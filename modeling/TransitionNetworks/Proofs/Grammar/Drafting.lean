import TransitionNetworks.Grammar.Builder
import TransitionNetworks.Grammar.Drafting
import TransitionNetworks.Proofs.Grammar.Chains
import TransitionNetworks.Proofs.Grammar.Derives

/-! # What is drawn is what is laid out

At every stage of the drawing of a grammar the states are those of its layout, as far as it is
drawn, with the start states of the rules ahead still bare. Steps draw the chain of their
alternative (`Blueprint.foldlM_drawStep`), alternatives the chains of their rule
(`Blueprint.foldlM_drawAlternative`), and rules the layout (`Blueprint.foldlM_drawRule`). Each of
these is an equation in `Except`: the drawing fails where replacing the names by places does, and
with the same fault, since names are looked up in the same order.

So building a grammar comes to laying it out (`Grammar.build_eq_toNetwork`). -/

namespace TransitionNetworks

namespace Blueprint

/-- The blueprint with the states and rules of two lists. -/
abbrev ofLists (states : List State) (rules : List Rule) : Blueprint :=
  ⟨states.toArray, rules.toArray⟩

/-! ## Behind what is drawn, and inside of it -/

/-- A new state comes behind the others. -/
theorem addState_ofLists (states : List State) (rules : List Rule) (kind : StateKind) :
    (ofLists states rules).addState kind =
      (states.length, ofLists (states ++ [⟨kind, []⟩]) rules) := by
  simp [addState]

/-- A new transition comes behind those of the state that it leaves. -/
theorem addTransition_ofLists (front back : List State) (rules : List Rule) (kind : StateKind)
    (transitions : List Transition) {source : Nat} (here : source = front.length)
    (transition : Transition) :
    (ofLists (front ++ ⟨kind, transitions⟩ :: back) rules).addTransition source transition =
      ofLists (front ++ ⟨kind, transitions ++ [transition]⟩ :: back) rules := by
  subst here
  have inside : front.length < (front ++ ⟨kind, transitions⟩ :: back).length := by simp
  simp [addTransition, List.modify_eq_take_cons_drop inside]

/-! ## The frame -/

/-- Rules with the given names that have no alternative yet. -/
abbrev unwritten (names : List String) : List (Production Nat) := names.map .named

/-- **Every rule gets its start and its stop state,** behind those of the rules in front. -/
theorem foldl_addRule (names : List String) (here : Nat) (states : List State) (rules : List Rule)
    (length : states.length = 2 * rules.length) :
    names.foldl addRule (ofLists states rules) =
      ofLists (states ++ boundaries rules.length here (unwritten names))
        (rules ++ ruleTable rules.length (unwritten names)) := by
  induction names generalizing states rules with
  | nil => simp [boundaries, ruleTable]
  | cons name rest ih =>
    have first : addRule (ofLists states rules) name =
        ofLists (states ++ [⟨.start rules.length, []⟩, ⟨.stop rules.length, []⟩])
          (rules ++ [⟨name, startState rules.length, stopState rules.length⟩]) := by
      simp [addRule, addState, startState, stopState, length]
    rw [List.foldl_cons, first, ih]
    · simp [boundaries, ruleTable, chainHeads, chainsLength, Production.named]
    · simp only [List.length_append, List.length_cons, List.length_nil, length]
      omega

end Blueprint

namespace Grammar

/-- The rules of a grammar, each with its start and its stop state. -/
abbrev table (grammar : Grammar) : List Rule := ruleTable 0 (Blueprint.unwritten grammar.names)

/-- **The frame** of a grammar is the layout of its rules without their alternatives. -/
theorem frame_eq (grammar : Grammar) (here : Nat) : grammar.frame =
    .ofLists (boundaries 0 here (Blueprint.unwritten grammar.names)) grammar.table :=
  Blueprint.foldl_addRule grammar.names here [] [] rfl

/-- The rules of the frame have the names of the grammar. -/
theorem map_name_table (grammar : Grammar) : grammar.table.map Rule.name = grammar.names := by
  rw [map_name_ruleTable, List.map_map]
  exact List.map_id _

/-- A rule of the frame starts in the start state of its place. -/
theorem start_getElem_table (grammar : Grammar) {place : Nat}
    (bound : place < grammar.table.length) : grammar.table[place].start = startState place := by
  have here := ruleTable_getElem? (Blueprint.unwritten grammar.names) 0 place
  rw [List.getElem?_eq_getElem bound] at here
  obtain ⟨production, -, same⟩ := Option.map_eq_some_iff.1 here.symm
  rw [← same, Nat.zero_add]

end Grammar

namespace Blueprint

variable (grammar : Grammar)

/-! ## Drawing an alternative -/

/-- **A name is looked up in the frame** as it is in the grammar, and the call enters the rule in
its start state. -/
theorem transitionOf_eq (states : List State) (next : Nat) (step : Step String) :
    (ofLists states grammar.table).transitionOf next step =
      (step.traverse grammar.lookup).map (Step.transition next) := by
  cases step with
  | consume matcher => rfl
  | epsilon kind => rfl
  | call name =>
    have found : grammar.names.findIdx? (· == name) =
        (grammar.table.toArray.findFinIdx? fun rule => rule.name == name).map Fin.val := by
      rw [← Array.findIdx?_eq_map_findFinIdx?_val, List.findIdx?_toArray, ← grammar.map_name_table,
        List.findIdx?_map]
      simp [Function.comp_def]
    rw [transitionOf, Step.traverse, Grammar.lookup, found]
    cases place : grammar.table.toArray.findFinIdx? fun rule => rule.name == name with
    | none => rfl
    | some callee =>
      have bound : callee.val < grammar.table.length := callee.isLt
      show Except.ok (Transition.call grammar.table[callee.val].start next callee) =
        .ok (.call (startState callee) next callee)
      rw [grammar.start_getElem_table bound]

/-- A step is drawn where the drawing has come to, and the next state is behind it. -/
theorem drawStep_eq (front : List State) (step : Step String) :
    drawStep (ofLists (front ++ [⟨.basic, []⟩]) grammar.table, front.length) step =
      (step.traverse grammar.lookup).map fun taken =>
        (ofLists (front ++ [⟨.basic, [taken.transition (front.length + 1)]⟩] ++ [⟨.basic, []⟩])
          grammar.table, front.length + 1) := by
  rw [drawStep, addState_ofLists]
  simp only [transitionOf_eq]
  cases step.traverse grammar.lookup with
  | error fault => rfl
  | ok taken =>
    have drawn := addTransition_ofLists front [⟨.basic, []⟩] grammar.table .basic [] rfl
      (taken.transition (front.length + 1))
    simpa [Except.map, bind, Except.bind, pure, Except.pure] using drawn

/-- **Steps draw the chain of their alternative,** up to the transition that closes it. -/
theorem foldlM_drawStep (stop : Nat) (front : List State) (alternative : Alternative String) :
    ((alternative.foldlM drawStep
        (ofLists (front ++ [⟨.basic, []⟩]) grammar.table, front.length)).map
      fun (drawn, last) => drawn.addTransition last (.epsilon .plain stop)) =
    (alternative.mapM (Step.traverse grammar.lookup)).map fun steps =>
      ofLists (front ++ chain stop front.length steps) grammar.table := by
  induction alternative generalizing front with
  | nil => exact congrArg Except.ok (addTransition_ofLists front [] _ .basic [] rfl _)
  | cons step rest ih =>
    rw [List.foldlM_cons, List.mapM_cons, drawStep_eq]
    cases step.traverse grammar.lookup with
    | error fault => rfl
    | ok taken =>
      -- the next state is the head of what is left of the chain
      have behind := ih (front ++ [⟨.basic, [taken.transition (front.length + 1)]⟩])
      rw [List.length_append, List.length_singleton] at behind
      refine behind.trans ?_
      cases rest.mapM (Step.traverse grammar.lookup) with
      | error fault => rfl
      | ok steps =>
        simp [Except.map, bind, Except.bind, pure, Except.pure, chain]

/-- **An alternative is drawn** as a chain behind all states, to which the start of the rule leads.
-/
theorem drawAlternative_eq (rule : Rule) (front back : List State) (kind : StateKind)
    (transitions : List Transition) (starts : rule.start = front.length) (here : Nat)
    (behind : front.length + (back.length + 1) = here) (alternative : Alternative String) :
    drawAlternative rule (ofLists (front ++ ⟨kind, transitions⟩ :: back) grammar.table)
        alternative =
      (alternative.mapM (Step.traverse grammar.lookup)).map fun steps =>
        ofLists (front ++ ⟨kind, transitions ++ [.epsilon .plain here]⟩ ::
          (back ++ chain rule.stop here steps)) grammar.table := by
  -- the head is drawn behind all states, and then the start of the rule leads there
  have opened : (ofLists (front ++ ⟨kind, transitions⟩ :: back ++ [⟨.basic, []⟩])
        grammar.table).addTransition rule.start (.epsilon .plain here) =
      ofLists (front ++ ⟨kind, transitions ++ [.epsilon .plain here]⟩ :: back ++ [⟨.basic, []⟩])
        grammar.table := by
    rw [List.append_assoc, List.append_assoc]
    exact addTransition_ofLists front (back ++ [⟨.basic, []⟩]) _ kind transitions starts _
  have drawn : drawAlternative rule (ofLists (front ++ ⟨kind, transitions⟩ :: back) grammar.table)
        alternative =
      (alternative.foldlM drawStep (ofLists (front ++ ⟨kind, transitions ++
        [.epsilon .plain here]⟩ :: back ++ [⟨.basic, []⟩]) grammar.table, here)).map
      fun (drawn, last) => drawn.addTransition last (.epsilon .plain rule.stop) := by
    rw [drawAlternative, addState_ofLists, List.length_append, List.length_cons, behind, ← opened]
    rfl
  have chained := foldlM_drawStep grammar rule.stop
    (front ++ ⟨kind, transitions ++ [.epsilon .plain here]⟩ :: back) alternative
  rw [List.length_append, List.length_cons, behind] at chained
  simpa using drawn.trans chained

/-- **Alternatives are drawn** as chains behind all states, to whose heads the start of the rule
leads. -/
theorem foldlM_drawAlternative (rule : Rule) (front back : List State) (kind : StateKind)
    (transitions : List Transition) (starts : rule.start = front.length) (here : Nat)
    (behind : front.length + (back.length + 1) = here) (alternatives : List (Alternative String)) :
    alternatives.foldlM (drawAlternative rule)
        (ofLists (front ++ ⟨kind, transitions⟩ :: back) grammar.table) =
      (alternatives.mapM fun steps : Alternative String =>
        steps.mapM (Step.traverse grammar.lookup)).map fun resolved =>
          ofLists (front ++
            ⟨kind, transitions ++ (chainHeads here resolved).map (.epsilon .plain)⟩ ::
              (back ++ chains rule.stop here resolved)) grammar.table := by
  induction alternatives generalizing back transitions here with
  | nil => simp [Except.map, pure, Except.pure, chainHeads, chains]
  | cons alternative rest ih =>
    rw [List.foldlM_cons, List.mapM_cons,
      drawAlternative_eq grammar rule front back kind transitions starts here behind]
    cases alternative.mapM (Step.traverse grammar.lookup) with
    | error fault => rfl
    | ok steps =>
      -- the next chain begins behind this one
      have others := ih (back ++ chain rule.stop here steps)
        (transitions ++ [.epsilon .plain here]) (here + chainLength steps)
        (by simp [← behind]; omega)
      refine others.trans ?_
      cases rest.mapM fun steps : Alternative String =>
          steps.mapM (Step.traverse grammar.lookup) with
      | error fault => rfl
      | ok resolved =>
        simp [Except.map, bind, Except.bind, pure, Except.pure, chainHeads, chains]

/-! ## Drawing the rules -/

/-- **Rules are drawn** as they are laid out. In front stand the boundaries of the rules drawn
already, and behind the bare boundaries of the others the chains drawn already. -/
theorem foldlM_drawRule (productions : List (Production String)) (rule bare : Nat)
    (front back : List State) (length : front.length = startState rule) (here : Nat)
    (behind : front.length + (2 * productions.length + back.length) = here) :
    (productions.zip (ruleTable rule (unwritten (productions.map Production.name)))).foldlM drawRule
        (ofLists (front ++ (boundaries rule bare (unwritten (productions.map Production.name)) ++
          back)) grammar.table) =
      (productions.mapM (Production.traverse grammar.lookup)).map fun resolved =>
        ofLists (front ++ (boundaries rule here resolved ++ (back ++ bodies rule here resolved)))
          grammar.table := by
  induction productions generalizing rule front back here with
  | nil => simp [Except.map, pure, Except.pure, boundaries, bodies]
  | cons production rest ih =>
    -- the rule is drawn from its bare start state, behind which its stop state is the first
    have first := foldlM_drawAlternative grammar
      ⟨production.name, startState rule, stopState rule⟩ front
      (⟨.stop rule, []⟩ ::
        boundaries (rule + 1) bare (unwritten (rest.map Production.name)) ++ back)
      (.start rule) [] length.symm here (by simp [← behind]; omega) production.alternatives
    rw [List.mapM_cons, Production.traverse]
    refine (congrArg (· >>= (rest.zip _).foldlM drawRule) first).trans ?_
    cases production.alternatives.mapM fun steps : Alternative String =>
        steps.mapM (Step.traverse grammar.lookup) with
    | error fault => rfl
    | ok alternatives =>
      have others := ih (rule + 1)
        (front ++ [⟨.start rule, (chainHeads here alternatives).map (.epsilon .plain)⟩,
          ⟨.stop rule, []⟩])
        (back ++ chains (stopState rule) here alternatives)
        (by simp [length, startState]; omega) (here + chainsLength alternatives)
        (by simp [← behind]; omega)
      simp only [List.append_assoc, List.cons_append, List.nil_append] at others
      simp only [Except.map, List.nil_append, List.cons_append, List.append_assoc]
      refine others.trans ?_
      cases rest.mapM (Production.traverse grammar.lookup) with
      | error fault => rfl
      | ok resolved =>
        simp [Except.map, bind, Except.bind, pure, Except.pure, boundaries, bodies]

end Blueprint

namespace Grammar

/-- **A grammar is drawn** as it is laid out once its names are replaced by places. -/
theorem draw_eq (grammar : Grammar) : grammar.draw =
    (grammar.productions.mapM (Production.traverse grammar.lookup)).map layout := by
  have drawn := Blueprint.foldlM_drawRule grammar grammar.productions 0 0 [] [] rfl _ rfl
  rw [draw, grammar.frame_eq 0]
  simp only [List.nil_append, List.append_nil, List.length_nil, Nat.zero_add, Nat.add_zero] at drawn
  refine drawn.trans ?_
  cases replaced : grammar.productions.mapM (Production.traverse grammar.lookup) with
  | error fault => rfl
  | ok resolved =>
    have all := (forall₂_of_mapM_eq_ok replaced).imp fun _ _ => Production.corresponds_of_traverse
    have rules : grammar.table = ruleTable 0 resolved := by
      apply ruleTable_congr
      rw [map_name_of_forall₂ all, List.map_map]
      exact List.map_id _
    have length : grammar.productions.length = resolved.length := all.length_eq
    rw [rules, length]
    rfl

/-- **Building a grammar comes to laying it out.** -/
theorem build_eq_toNetwork (grammar : Grammar) : grammar.build = grammar.toNetwork := by
  rw [build, toNetwork, resolve, draw_eq]
  cases firstRepeated? grammar.names with
  | some name => rfl
  | none =>
    cases grammar.productions.mapM (Production.traverse grammar.lookup) <;> rfl

end Grammar

end TransitionNetworks
