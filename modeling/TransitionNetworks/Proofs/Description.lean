import TransitionNetworks.Network.Graph
import TransitionNetworks.Proofs.Text.Codes
import TransitionNetworks.Proofs.Grammar.Decision
import TransitionNetworks.Proofs.Validation

/-! # The description of a network

The description of a graph tells the graph (`Graph.description_injective`), since every line tells
where it ends and whether it is about a node or about an arrow (`Graph.prefixFreeOn_line`).

The graph of a network tells the network if a grammar has been laid out as it
(`Grammar.network_eq_of_description_eq`). The nodes of the start states tell how many rules there
are and their names (`names_of_nodes`), and with that what the rules and the kinds of the states
are. The names are different, so that the arrows of a transition tell the transition
(`Blueprint.prefixFreeOn_transitionArrows`), and the arrows that point away from a state tell its
transitions (`Blueprint.map_transitions_eq`). -/

namespace TransitionNetworks

namespace Graph

/-- The id of a state ends in front of what is no digit. -/
theorem stateText_append_inj {state other : Nat} {rest more : List Char}
    (ends : ∀ letter ∈ rest.head?, letter.isDigit = false)
    (ends' : ∀ letter ∈ more.head?, letter.isDigit = false)
    (same : (stateText state).toList ++ rest = (stateText other).toList ++ more) :
    state = other ∧ rest = more := by
  simp only [stateText, String.toList_append, List.append_assoc] at same
  obtain ⟨digits, behind⟩ := run_append_inj (fun letter => letter.isDigit = true)
    (fun _ => isDigit_of_mem_repr) (fun _ => isDigit_of_mem_repr)
    (fun letter first => by simp [ends letter first])
    (fun letter first => by simp [ends' letter first]) (List.append_cancel_left same)
  exact ⟨repr_injective (String.toList_injective digits), behind⟩

/-- A label attribute has its label between quotes. -/
theorem toList_labelAttribute (label : String) :
    (labelAttribute label).toList =
      "[label=".toList ++ '"' :: ((Escaped.encode label).toList ++ '"' :: "];\n".toList) := by
  have opening : "[label=\"".toList = "[label=".toList ++ ['"'] := by decide
  have closing : "\"];\n".toList = '"' :: "];\n".toList := by decide
  unfold labelAttribute
  rw [toList_append_append, opening, closing, List.append_assoc, List.singleton_append]

/-- No digit stands in front of a label. -/
theorem isDigit_head?_labelAttribute (label : String) (behind : List Char) :
    ∀ letter ∈ ((labelAttribute label).toList ++ behind).head?, letter.isDigit = false := by
  intro letter first
  rw [toList_labelAttribute] at first
  exact Option.some.inj first ▸ rfl

/-- **Label attributes are free of prefixes.** -/
theorem prefixFreeOn_labelAttribute :
    PrefixFreeOn (fun _ => True) fun label => (labelAttribute label).toList := by
  intro label other _ _ rest more same
  simp only [toList_labelAttribute, List.cons_append, List.append_assoc] at same
  obtain ⟨-, quoted⟩ := List.cons.inj (List.append_cancel_left same)
  obtain ⟨rfl, behind⟩ := Escaped.encode_append_inj quoted
  exact ⟨rfl, List.append_cancel_left behind⟩

/-- The line of a node or of an arrow. -/
def line : (Nat × String) ⊕ Arrow → List Char
  | .inl node => (nodeLine node).toList
  | .inr arrow => (arrowLine arrow).toList

/-- What stands behind the state with which a line begins. -/
def lineRest : (Nat × String) ⊕ Arrow → List Char
  | .inl node => (labelAttribute node.2).toList
  | .inr arrow =>
    " -> ".toList ++ ((stateText arrow.target).toList ++ (labelAttribute arrow.label).toList)

/-- The state with which a line begins. -/
def lineState : (Nat × String) ⊕ Arrow → Nat
  | .inl node => node.1
  | .inr arrow => arrow.source

/-- A line begins with a state. -/
theorem line_eq (entry : (Nat × String) ⊕ Arrow) :
    line entry = "    ".toList ++ ((stateText (lineState entry)).toList ++ lineRest entry) := by
  cases entry with
  | inl node => simp only [line, nodeLine, lineRest, lineState, String.toList_append,
      List.append_assoc]
  | inr arrow => simp only [line, arrowLine, lineRest, lineState, String.toList_append,
      List.append_assoc]

/-- Behind the state with which a line begins stands a bracket or a space. -/
theorem head?_lineRest_append (entry : (Nat × String) ⊕ Arrow) (behind : List Char) :
    (lineRest entry ++ behind).head? = if entry.isLeft then some '[' else some ' ' := by
  cases entry with
  | inl node =>
    rw [lineRest, toList_labelAttribute]
    rfl
  | inr arrow => rfl

/-- **The lines of nodes and arrows are free of prefixes.** -/
theorem prefixFreeOn_line : PrefixFreeOn (fun _ => True) line := by
  have noDigit : ∀ (entry : (Nat × String) ⊕ Arrow) (behind : List Char),
      ∀ letter ∈ (lineRest entry ++ behind).head?, letter.isDigit = false := by
    intro entry behind letter first
    rw [head?_lineRest_append] at first
    split at first
    · exact Option.some.inj first ▸ rfl
    · exact Option.some.inj first ▸ rfl
  intro entry other _ _ rest more same
  rw [line_eq, line_eq, List.append_assoc, List.append_assoc, List.append_assoc,
    List.append_assoc] at same
  obtain ⟨state, behind⟩ := stateText_append_inj (noDigit entry rest) (noDigit other more)
    (List.append_cancel_left same)
  have sorts := congrArg List.head? behind
  rw [head?_lineRest_append, head?_lineRest_append] at sorts
  cases entry with
  | inl node =>
    cases other with
    | inl node' =>
      obtain ⟨label, behind⟩ := prefixFreeOn_labelAttribute trivial trivial behind
      exact ⟨congrArg Sum.inl (Prod.ext state label), behind⟩
    | inr arrow => simp at sorts
  | inr arrow =>
    cases other with
    | inl node => simp at sorts
    | inr arrow' =>
      simp only [lineRest, List.append_assoc] at behind
      obtain ⟨target, behind⟩ := stateText_append_inj (isDigit_head?_labelAttribute _ _)
        (isDigit_head?_labelAttribute _ _) (List.append_cancel_left behind)
      obtain ⟨label, behind⟩ := prefixFreeOn_labelAttribute trivial trivial behind
      exact ⟨congrArg Sum.inr (Arrow.mk.injEq .. ▸ ⟨state, target, label⟩), behind⟩

/-- The lines of a description: those of the nodes and then those of the arrows. -/
def entries (graph : Graph) : List ((Nat × String) ⊕ Arrow) :=
  graph.nodes.map Sum.inl ++ graph.arrows.map Sum.inr

/-- A description has a line for each node and each arrow. -/
theorem toList_description (graph : Graph) :
    graph.description.toList =
      "digraph automaton \x7b\n".toList ++ (graph.entries.flatMap line ++ "\x7d\n".toList) := by
  have nodes : (graph.nodes.map nodeLine).flatMap String.toList =
      (graph.nodes.map Sum.inl).flatMap line := by
    rw [List.flatMap_map, List.flatMap_map]
    rfl
  have arrows : (graph.arrows.map arrowLine).flatMap String.toList =
      (graph.arrows.map Sum.inr).flatMap line := by
    rw [List.flatMap_map, List.flatMap_map]
    rfl
  have parts : ∀ opening nodes arrows closing : String,
      (opening ++ nodes ++ arrows ++ closing).toList =
        opening.toList ++ ((nodes.toList ++ arrows.toList) ++ closing.toList) := by
    intro opening nodes arrows closing
    rw [String.toList_append, toList_append_append, List.append_assoc]
  unfold description
  rw [parts, String.toList_join, String.toList_join, nodes, arrows, entries,
    List.flatMap_append]

/-- **A graph is told by its description,** whatever is written in its nodes and at its arrows. -/
theorem description_injective : Function.Injective description := by
  have apart : ∀ entry : (Nat × String) ⊕ Arrow, True → ¬ line entry <+: "\x7d\n".toList := by
    intro entry _ begins
    rw [line_eq] at begins
    have first : ' ' = '\x7d' := (List.cons_prefix_cons.1 begins).1
    exact absurd first (by decide)
  intro graph other same
  have letters := congrArg String.toList same
  rw [toList_description, toList_description, List.append_cancel_left_eq] at letters
  obtain ⟨entries, -⟩ := prefixFreeOn_line.flatMap_append_inj (fun _ _ => trivial)
    (fun _ _ => trivial) apart apart letters
  have nodes : graph.nodes = other.nodes := by
    have lefts := congrArg (List.filterMap Sum.getLeft?) entries
    simpa [Graph.entries, Function.comp_def] using lefts
  have arrows : graph.arrows = other.arrows := by
    have rights := congrArg (List.filterMap Sum.getRight?) entries
    simpa [Graph.entries, Function.comp_def] using rights
  cases graph
  cases other
  cases nodes
  cases arrows
  rfl

end Graph

/-! ## The arrows of transitions -/

/-- The letter with which the label of the first arrow of a transition begins. -/
def Transition.mark : Transition → Char
  | terminal matcher _ => matcher.mark
  | call .. => 'c'
  | epsilon .. => 'ε'

/-- No matcher has the mark of a call or of an epsilon step. -/
theorem Matcher.mark_ne (matcher : Matcher) : matcher.mark ≠ 'c' ∧ matcher.mark ≠ 'ε' := by
  cases matcher with
  | oneOf set => simp [Matcher.mark]
  | noneOf set => simp [Matcher.mark]
  | any => simp [Matcher.mark]

/-- The sorts of epsilon steps have different names. -/
theorem EpsilonKind.text_injective : Function.Injective EpsilonKind.text := by
  intro kind other same
  cases kind <;> cases other <;> simp [EpsilonKind.text] at same ⊢

namespace Blueprint

variable {blueprint : Blueprint} {source : Nat}

/-- **A transition whose rule exists,** if it calls one. -/
def CallsKnown (blueprint : Blueprint) (transition : Transition) : Prop :=
  ∀ start follow rule, transition = .call start follow rule →
    ∃ called, blueprint.rule? rule = some called

/-- The arrows of a transition point away from its state. -/
theorem source_of_mem_transitionArrows {transition : Transition} {arrow : Arrow}
    (member : arrow ∈ blueprint.transitionArrows source transition) : arrow.source = source := by
  cases transition with
  | terminal matcher target => exact (List.mem_singleton.1 member) ▸ rfl
  | call start follow rule =>
    rcases List.mem_pair.1 member with rfl | rfl
    · rfl
    · rfl
  | epsilon kind target => exact (List.mem_singleton.1 member) ▸ rfl

/-- The first arrow of a transition tells its sort. -/
theorem exists_transitionArrows_eq_cons (blueprint : Blueprint) (source : Nat)
    (transition : Transition) :
    ∃ arrow others, blueprint.transitionArrows source transition = arrow :: others ∧
      arrow.label.toList.head? = some transition.mark := by
  cases transition with
  | terminal matcher target => exact ⟨_, _, rfl, matcher.head?_text⟩
  | call start follow rule =>
    refine ⟨_, _, rfl, ?_⟩
    rw [String.toList_append]
    rfl
  | epsilon kind target =>
    refine ⟨_, _, rfl, ?_⟩
    rw [String.toList_append]
    rfl

/-- Rules that exist are told by their names in calls if all rules have different names. -/
theorem calleeName_injOn (unique : (blueprint.rules.toList.map Rule.name).Nodup) {rule other : Nat}
    {called called' : Rule} (known : blueprint.rule? rule = some called)
    (known' : blueprint.rule? other = some called')
    (same : blueprint.calleeName rule = blueprint.calleeName other) : rule = other := by
  simp only [calleeName, ruleName?, known, known', Option.map_some, Option.getD_some] at same
  rw [rule?, ← Array.getElem?_toList] at known known'
  have bound : rule < (blueprint.rules.toList.map Rule.name).length := by
    rw [List.length_map]
    exact (List.getElem?_eq_some_iff.1 known).1
  refine (List.getElem?_inj bound unique).1 ?_
  rw [List.getElem?_map, List.getElem?_map, known, known', Option.map_some, Option.map_some, same]

/-- Transitions with the same first arrow are of the same sort. -/
theorem mark_eq_of_append_eq {transition other : Transition} {rest more : List Arrow}
    (same : blueprint.transitionArrows source transition ++ rest =
      blueprint.transitionArrows source other ++ more) : transition.mark = other.mark := by
  obtain ⟨arrow, others, first, mark⟩ :=
    exists_transitionArrows_eq_cons blueprint source transition
  obtain ⟨arrow', others', first', mark'⟩ := exists_transitionArrows_eq_cons blueprint source other
  rw [first, first'] at same
  rw [(List.cons.inj same).1, mark'] at mark
  exact (Option.some.inj mark).symm

/-- **The arrows of transitions are free of prefixes** if all rules have different names. -/
theorem prefixFreeOn_transitionArrows (unique : (blueprint.rules.toList.map Rule.name).Nodup)
    (source : Nat) : PrefixFreeOn blueprint.CallsKnown (blueprint.transitionArrows source) := by
  intro transition other known known' rest more same
  have marks : transition.mark = other.mark := mark_eq_of_append_eq same
  cases transition with
  | terminal matcher target =>
    cases other with
    | terminal matcher' target' =>
      obtain ⟨arrow, behind⟩ := List.cons.inj same
      obtain ⟨-, target, label⟩ := Arrow.mk.inj arrow
      exact ⟨by rw [target, Matcher.text_injective label], behind⟩
    | call => exact absurd marks matcher.mark_ne.1
    | epsilon => exact absurd marks matcher.mark_ne.2
  | call start follow rule =>
    cases other with
    | terminal matcher' target' => exact absurd marks.symm matcher'.mark_ne.1
    | call start' follow' rule' =>
      obtain ⟨enter, behind⟩ := List.cons.inj same
      obtain ⟨leave, behind⟩ := List.cons.inj behind
      obtain ⟨-, sameStart, label⟩ := Arrow.mk.inj enter
      obtain ⟨-, sameFollow, -⟩ := Arrow.mk.inj leave
      have called : blueprint.calleeName rule = blueprint.calleeName rule' :=
        (String.append_right_inj _).1 label
      obtain ⟨_, exists'⟩ := known start follow rule rfl
      obtain ⟨_, exists''⟩ := known' start' follow' rule' rfl
      have sameRule := calleeName_injOn unique exists' exists'' called
      exact ⟨by rw [sameStart, sameFollow, sameRule], behind⟩
    | epsilon => simp [Transition.mark] at marks
  | epsilon kind target =>
    cases other with
    | terminal matcher' target' => exact absurd marks.symm matcher'.mark_ne.2
    | call => simp [Transition.mark] at marks
    | epsilon kind' target' =>
      obtain ⟨arrow, behind⟩ := List.cons.inj same
      obtain ⟨-, target, label⟩ := Arrow.mk.inj arrow
      have sort : kind.text = kind'.text := (String.append_right_inj _).1 label
      exact ⟨by rw [target, EpsilonKind.text_injective sort], behind⟩

/-- The arrows of consecutive states, the first of them at the place `source`. -/
def arrowsFrom (blueprint : Blueprint) (source : Nat) (states : List State) : List Arrow :=
  (states.zipIdx source).flatMap fun (state, id) =>
    state.transitions.flatMap (blueprint.transitionArrows id)

/-- How transitions are shown depends on the rules only. -/
theorem arrowsFrom_congr {other : Blueprint} (rules : blueprint.rules = other.rules) :
    blueprint.arrowsFrom = other.arrowsFrom := by
  cases blueprint
  cases other
  cases rules
  rfl

/-- Which transitions call known rules depends on the rules only. -/
theorem callsKnown_congr {other : Blueprint} (rules : blueprint.rules = other.rules) :
    blueprint.CallsKnown = other.CallsKnown := by
  cases blueprint
  cases other
  cases rules
  rfl

/-- The arrows of the first state are in front. -/
theorem arrowsFrom_cons (blueprint : Blueprint) (source : Nat) (state : State)
    (states : List State) :
    blueprint.arrowsFrom source (state :: states) =
      state.transitions.flatMap (blueprint.transitionArrows source) ++
        blueprint.arrowsFrom (source + 1) states := by
  rw [arrowsFrom, List.zipIdx_cons, List.flatMap_cons]
  rfl

/-- The arrows of consecutive states point away from these states. -/
theorem le_source_of_mem_arrowsFrom {states : List State} {arrow : Arrow}
    (member : arrow ∈ blueprint.arrowsFrom source states) : source ≤ arrow.source := by
  obtain ⟨⟨state, id⟩, here, member⟩ := List.mem_flatMap.1 member
  obtain ⟨transition, -, member⟩ := List.mem_flatMap.1 member
  rw [source_of_mem_transitionArrows member]
  exact List.le_snd_of_mem_zipIdx here

/-- The transitions of one state are told by their arrows. -/
theorem transitions_eq (unique : (blueprint.rules.toList.map Rule.name).Nodup)
    {transitions others : List Transition}
    (known : ∀ transition ∈ transitions, blueprint.CallsKnown transition)
    (known' : ∀ transition ∈ others, blueprint.CallsKnown transition)
    (same : transitions.flatMap (blueprint.transitionArrows source) =
      others.flatMap (blueprint.transitionArrows source)) : transitions = others := by
  refine (prefixFreeOn_transitionArrows unique source).flatMap_inj ?_ known known' same
  intro transition _ none
  obtain ⟨arrow, others, first, -⟩ := exists_transitionArrows_eq_cons blueprint source transition
  rw [first] at none
  cases none

/-- The arrows of the first state are those that point away from it. -/
theorem arrowsFrom_cons_inj {state other : State} {states others : List State}
    (same : blueprint.arrowsFrom source (state :: states) =
      blueprint.arrowsFrom source (other :: others)) :
    state.transitions.flatMap (blueprint.transitionArrows source) =
        other.transitions.flatMap (blueprint.transitionArrows source) ∧
      blueprint.arrowsFrom (source + 1) states = blueprint.arrowsFrom (source + 1) others := by
  have inside : ∀ transitions : List Transition,
      ∀ arrow ∈ transitions.flatMap (blueprint.transitionArrows source),
        arrow.source = source := by
    intro transitions arrow member
    obtain ⟨transition, -, member⟩ := List.mem_flatMap.1 member
    exact source_of_mem_transitionArrows member
  have ends : ∀ states : List State,
      ∀ arrow ∈ (blueprint.arrowsFrom (source + 1) states).head?, ¬ arrow.source = source := by
    intro states arrow first
    have behind := le_source_of_mem_arrowsFrom (List.mem_of_mem_head? first)
    omega
  rw [arrowsFrom_cons, arrowsFrom_cons] at same
  exact run_append_inj (fun arrow => arrow.source = source) (inside state.transitions)
    (inside other.transitions) (ends states) (ends others) same

/-- **The transitions of states are told by their arrows** if all rules have different names. -/
theorem map_transitions_eq (unique : (blueprint.rules.toList.map Rule.name).Nodup)
    {states others : List State} (length : states.length = others.length)
    (known : ∀ state ∈ states, ∀ transition ∈ state.transitions, blueprint.CallsKnown transition)
    (known' : ∀ state ∈ others, ∀ transition ∈ state.transitions, blueprint.CallsKnown transition)
    (same : blueprint.arrowsFrom source states = blueprint.arrowsFrom source others) :
    states.map State.transitions = others.map State.transitions := by
  induction states generalizing others source with
  | nil => rw [List.eq_nil_of_length_eq_zero length.symm]
  | cons state states ih =>
    cases others with
    | nil => simp at length
    | cons other others =>
      obtain ⟨front, behind⟩ := arrowsFrom_cons_inj same
      have transitions := transitions_eq unique (known state List.mem_cons_self)
        (known' other List.mem_cons_self) front
      have rest := ih (Nat.succ.inj length)
        (fun state member => known state (List.mem_cons_of_mem _ member))
        (fun state member => known' state (List.mem_cons_of_mem _ member)) behind
      rw [List.map_cons, List.map_cons, transitions, rest]

end Blueprint

/-! ## Laid out grammars -/

/-- The kinds of the boundaries of rules are told by the number of the rules. -/
theorem kinds_boundaries {productions others : List (Production Nat)} (rule here there : Nat)
    (length : productions.length = others.length) :
    (boundaries rule here productions).map State.kind =
      (boundaries rule there others).map State.kind := by
  induction productions generalizing others rule here there with
  | nil => rw [List.eq_nil_of_length_eq_zero length.symm]; rfl
  | cons production productions ih =>
    cases others with
    | nil => simp at length
    | cons other others =>
      have rest := ih (rule + 1) (here + chainsLength production.alternatives)
        (there + chainsLength other.alternatives) (Nat.succ.inj length)
      simp only [boundaries, List.map_cons, rest]

/-- Inside of chains all states are basic. -/
theorem kinds_bodies (rule here : Nat) (productions : List (Production Nat)) :
    (bodies rule here productions).map State.kind =
      List.replicate (bodiesLength productions) .basic := by
  rw [List.eq_replicate_iff, List.length_map, length_bodies]
  refine ⟨rfl, fun kind member => ?_⟩
  obtain ⟨state, there, rfl⟩ := List.mem_map.1 member
  exact kind_of_mem_bodies there

section Layouts

variable {productions others : List (Production Nat)}

/-- The node of a state is at the place of the state. -/
theorem Blueprint.nodes_getElem? (blueprint : Blueprint) (id : Nat) :
    blueprint.graph.nodes[id]? =
      (blueprint.state? id).map fun state => (id, blueprint.nodeLabel id state.kind) := by
  simp only [graph, List.getElem?_map, List.getElem?_zipIdx, Option.map_map, Array.getElem?_toList,
    state?, Nat.zero_add]
  rfl

/-- The node of a start state has the name of its rule. -/
theorem nodes_layout_startState {rule : Nat} {production : Production Nat}
    (found : productions[rule]? = some production) :
    (layout productions).graph.nodes[startState rule]? =
      some (startState rule, stateText (startState rule) ++ " start " ++ production.name) := by
  have laidOut := laidOut_layout productions
  obtain ⟨heads, starts, -⟩ := laidOut.start rule production found
  rw [Blueprint.nodes_getElem?, starts, Option.map_some, Blueprint.nodeLabel, Blueprint.ruleName?,
    laidOut.rules, found]
  rfl

/-- The nodes of the states inside of chains have no names. -/
theorem nodes_layout_of_le {id : Nat} {node : Nat × String} (inside : 2 * productions.length ≤ id)
    (found : (layout productions).graph.nodes[id]? = some node) : node = (id, stateText id) := by
  rw [Blueprint.nodes_getElem?, state?_layout, if_neg (Nat.not_lt.2 inside)] at found
  obtain ⟨state, there, rfl⟩ := Option.map_eq_some_iff.1 found
  rw [kind_of_mem_bodies (List.mem_of_getElem? there)]
  rfl

/-- No layout has fewer rules than another one with the same nodes. -/
theorem length_le_of_nodes (same : (layout productions).graph.nodes = (layout others).graph.nodes) :
    others.length ≤ productions.length := by
  rw [← Nat.not_lt]
  intro more
  -- a start state of the one would be inside a chain of the other
  have start := nodes_layout_startState (List.getElem?_eq_getElem more)
  rw [← same] at start
  have label := congrArg Prod.snd (nodes_layout_of_le (Nat.le_refl _) start)
  rw [String.append_assoc] at label
  have empty := String.append_eq_left_iff.1 label
  rw [String.append_eq_empty_iff] at empty
  exact absurd empty.1 (by decide)

/-- The rules of layouts with the same nodes have the same names. -/
theorem names_of_nodes (same : (layout productions).graph.nodes = (layout others).graph.nodes) :
    productions.map Production.name = others.map Production.name := by
  have length : productions.length = others.length :=
    Nat.le_antisymm (length_le_of_nodes same.symm) (length_le_of_nodes same)
  refine List.ext_getElem (by rw [List.length_map, List.length_map, length]) ?_
  intro rule bound bound'
  rw [List.length_map] at bound bound'
  have start := nodes_layout_startState (List.getElem?_eq_getElem bound)
  rw [same, nodes_layout_startState (List.getElem?_eq_getElem bound')] at start
  rw [List.getElem_map, List.getElem_map]
  exact ((String.append_right_inj _).1 (congrArg Prod.snd (Option.some.inj start))).symm

/-- The kinds of the states of layouts are told by the numbers of their rules and states. -/
theorem kinds_layout (rules : productions.length = others.length)
    (states : (layout productions).states.size = (layout others).states.size) :
    (layout productions).states.toList.map State.kind =
      (layout others).states.toList.map State.kind := by
  rw [size_states_layout, size_states_layout, rules] at states
  rw [layout, layout, List.toList_toArray, List.toList_toArray, List.map_append, List.map_append,
    kinds_bodies, kinds_bodies, Nat.add_left_cancel states, kinds_boundaries _ _ _ rules]

/-- States are told by their kinds and transitions. -/
theorem states_ext {states others : List State}
    (kinds : states.map State.kind = others.map State.kind)
    (transitions : states.map State.transitions = others.map State.transitions) :
    states = others := by
  induction states generalizing others with
  | nil => rw [List.map_eq_nil_iff.1 kinds.symm]
  | cons state states ih =>
    cases others with
    | nil => simp at kinds
    | cons other others =>
      obtain ⟨kind, otherKinds⟩ := List.cons.inj kinds
      obtain ⟨transition, otherTransitions⟩ := List.cons.inj transitions
      cases state
      cases other
      cases kind
      cases transition
      rw [ih otherKinds otherTransitions]

end Layouts

/-- **Layouts are told by their graphs** if all rules have different names and all calls go to rules
that exist. -/
theorem layout_eq_of_graph_eq {productions others : List (Production Nat)}
    (unique : (productions.map Production.name).Nodup)
    (known : ∀ state ∈ (layout productions).states.toList, ∀ transition ∈ state.transitions,
      (layout productions).CallsKnown transition)
    (known' : ∀ state ∈ (layout others).states.toList, ∀ transition ∈ state.transitions,
      (layout others).CallsKnown transition)
    (same : (layout productions).graph = (layout others).graph) :
    layout productions = layout others := by
  have nodes := congrArg Graph.nodes same
  have names := names_of_nodes nodes
  have rules : (layout productions).rules = (layout others).rules :=
    congrArg List.toArray (ruleTable_congr 0 names)
  have size : (layout productions).states.size = (layout others).states.size := by
    have length := congrArg List.length nodes
    simpa only [Blueprint.graph, List.length_map, List.length_zipIdx, Array.length_toList]
      using length
  have kinds := kinds_layout (by simpa only [List.length_map] using congrArg List.length names) size
  have uniqueNames : ((layout productions).rules.toList.map Rule.name).Nodup := by
    rwa [layout, List.toList_toArray, map_name_ruleTable]
  have arrows : (layout productions).arrowsFrom 0 (layout productions).states.toList =
      (layout productions).arrowsFrom 0 (layout others).states.toList :=
    calc
      _ = (layout others).arrowsFrom 0 (layout others).states.toList := congrArg Graph.arrows same
      _ = _ := by rw [Blueprint.arrowsFrom_congr rules]
  rw [← Blueprint.callsKnown_congr rules] at known'
  have transitions :=
    Blueprint.map_transitions_eq uniqueNames (by simpa using size) known known' arrows
  have states := Array.ext' (states_ext kinds transitions)
  calc layout productions = ⟨(layout productions).states, (layout productions).rules⟩ := rfl
    _ = ⟨(layout others).states, (layout others).rules⟩ := by rw [states, rules]

namespace Grammar

variable {grammar other : Grammar} {network another : Network}

/-- In a network calls go to rules that exist. -/
theorem callsKnown (network : Network) :
    ∀ state ∈ network.states.toList, ∀ transition ∈ state.transitions,
      network.CallsKnown transition := by
  rintro state there _ member start follow rule rfl
  obtain ⟨id, there⟩ := List.mem_iff_getElem?.1 there
  rw [Array.getElem?_toList] at there
  have wellFormed := network.faults_eq_nil_iff_wellFormed.1 network.faultless
  obtain ⟨called, known, -⟩ := wellFormed.calls id state start follow rule there member
  exact ⟨called, known⟩

/-- **The description of the network of a grammar tells the network.** -/
theorem network_eq_of_description_eq (built : grammar.toNetwork = .ok network)
    (built' : other.toNetwork = .ok another)
    (same : network.graph.description = another.graph.description) : network = another := by
  obtain ⟨productions, resolved, isLayout⟩ := exists_resolved built
  obtain ⟨productions', resolved', isLayout'⟩ := exists_resolved built'
  have unique : (productions.map Production.name).Nodup := by
    rw [names_of_resolve resolved]
    exact (corresponds_of_resolve resolved).1
  have known := callsKnown network
  have known' := callsKnown another
  have graphs := Graph.description_injective same
  rw [isLayout] at known graphs
  rw [isLayout'] at known' graphs
  have layouts := layout_eq_of_graph_eq unique known known' graphs
  rw [← isLayout, ← isLayout'] at layouts
  cases network
  cases another
  cases layouts
  rfl

/-- A rule with quotes, a line break, a brace and a letter beyond ASCII in its name, which goes
through itself behind a token that is not in a list. -/
def outlandish (tokens : List Token) : Grammar where
  productions :=
    [⟨"\"];\n\x7d é start",
      [[.consume (.noneOf (.ofList tokens)), .call "\"];\n\x7d é start", .epsilon .action], []]⟩]

/-- The order in which the tokens of a set are listed makes no other network, nor the tokens listed
twice, as is seen by the descriptions. -/
theorem network_eq_of_description_eq_outlandish :
    ∃ network another, (outlandish [7, Token.endMarker]).toNetwork = .ok network ∧
      (outlandish [Token.endMarker, 7, 7]).toNetwork = .ok another ∧
      network.graph.description = another.graph.description ∧ network = another := by
  have described : (outlandish [7, Token.endMarker]).toNetwork.toOption.map
        (fun network => network.graph.description) =
      (outlandish [Token.endMarker, 7, 7]).toNetwork.toOption.map
        (fun network => network.graph.description) := by decide +kernel
  have builds : (outlandish [7, Token.endMarker]).toNetwork.toBool = true ∧
      (outlandish [Token.endMarker, 7, 7]).toNetwork.toBool = true := by decide +kernel
  cases built : (outlandish [7, Token.endMarker]).toNetwork with
  | error fault =>
    rw [built] at builds
    cases builds.1
  | ok network =>
    cases built' : (outlandish [Token.endMarker, 7, 7]).toNetwork with
    | error fault =>
      rw [built'] at builds
      cases builds.2
    | ok another =>
      rw [built, built'] at described
      have same := Option.some.inj described
      exact ⟨network, another, rfl, rfl, same, network_eq_of_description_eq built built' same⟩

end Grammar

end TransitionNetworks
