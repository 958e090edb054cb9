import TransitionNetworks.Proofs.Parsing
import TransitionNetworks.Proofs.Renumbering.Runs
import TransitionNetworks.Proofs.Wrapping

/-! # Parses do not depend on the numbering

From renumbered provenance the renumbered derivation is read off
(`ProvenanceTable.RenumberedAs.derivation`), and from a renumbered derivation the renumbered tree is
assembled (`ParseTree.assemble_renumber`). So where a network embeds into another, the run of the
other is the renumbered run, with its positions, origins, stacks and node ids
(`Network.recognition_renumber`): neither does the order of ids matter anywhere, nor what states and
rules there are beside. A network embeds into every one that it is part of, where nothing is
renumbered (`Network.recognition_of_partOf`). -/

namespace TransitionNetworks

/-! ## Derivations -/

/-- The same walk through renumbered places. -/
def Walk.renumber (numbering : Numbering) (walk : Walk) : Walk where
  place := walk.place.renumber numbering
  pending := walk.pending.map (Place.renumber numbering)
  events := walk.events.map (Event.renumber numbering)

/-- **Walks in step.** Both go on through renumbered places, or both end with renumbered events;
where one ends with a fault nothing is said of the other. -/
inductive WalkState.InStep (numbering : Numbering) : WalkState → WalkState → Prop
  /-- Both walks go on. -/
  | walking (walk : Walk) : InStep numbering (.walking walk) (.walking (walk.renumber numbering))
  /-- Both walks come to a derivation. -/
  | done (events : List Event) :
      InStep numbering (.done (.ok events)) (.done (.ok (events.map (Event.renumber numbering))))
  /-- The walk comes to a fault. -/
  | fault (fault : DerivationFault) (other : WalkState) :
      InStep numbering (.done (.error fault)) other

/-- **Renumbered provenance.** A place that has a provenance has the renumbered one under its new
id. -/
structure ProvenanceTable.RenumberedAs (numbering : Numbering) (table image : ProvenanceTable) :
    Prop where
  /-- The provenance of a place is renumbered. -/
  find? : ∀ place why, table.find? place = some why →
    image.find? (place.renumber numbering) = some (why.renumber numbering)
  /-- As many places have a provenance. -/
  size : image.size = table.size

namespace ProvenanceTable.RenumberedAs

variable {numbering : Numbering} {table image : ProvenanceTable}

/-- Walks through tables that are renumbered take the same step. -/
theorem step (renumbered : table.RenumberedAs numbering image) (walk : Walk) :
    (walk.step table).InStep numbering ((walk.renumber numbering).step image) := by
  obtain ⟨⟨position, item⟩, pending, events⟩ := walk
  cases here : table.find? ⟨position, item⟩ with
  | none =>
    simp only [Walk.step, here]
    exact .fault _ _
  | some why =>
    have there := renumbered.find? _ _ here
    cases why with
    | seed =>
      simp only [Walk.step, Walk.renumber, here, there, Provenance.renumber]
      cases pending with
      | nil => exact .done events
      | cons => exact .fault _ _
    | epsilon prev =>
      simp only [Walk.step, Walk.renumber, here, there, Provenance.renumber]
      exact .walking ⟨⟨position, prev⟩, pending, events⟩
    | predict prev rule =>
      simp only [Walk.step, Walk.renumber, here, there, Provenance.renumber]
      cases pending with
      | nil => exact .fault _ _
      | cons caller outer => exact .walking ⟨caller, outer, .enter rule :: events⟩
    | complete stop caller rule =>
      simp only [Walk.step, Walk.renumber, here, there, Provenance.renumber]
      exact .walking ⟨⟨position, stop⟩, ⟨stop.origin, caller⟩ :: pending, .exit rule :: events⟩
    | scan prev index =>
      simp only [Walk.step, Walk.renumber, here, there, Provenance.renumber]
      cases position with
      | zero => exact .fault _ _
      | succ position => exact .walking ⟨⟨position, prev⟩, pending, .consume index :: events⟩

/-- Walks through tables that are renumbered keep in step. -/
theorem run (renumbered : table.RenumberedAs numbering image) (n : Nat) (walk : Walk) :
    (Walk.run table n walk).InStep numbering (Walk.run image n (walk.renumber numbering)) := by
  induction n generalizing walk with
  | zero => exact .walking walk
  | succ n ih =>
    have stepped := renumbered.step walk
    rw [Walk.run, Walk.run]
    generalize walk.step table = next at stepped ⊢
    generalize (walk.renumber numbering).step image = next' at stepped ⊢
    cases stepped with
    | walking walk => exact ih walk
    | done events => exact .done events
    | fault => exact .fault _ _

/-- **A derivation is read off under the new ids.** -/
theorem derivation (renumbered : table.RenumberedAs numbering image) {place : Place}
    {events : List Event} (derived : table.derivation place = .ok events) :
    image.derivation (place.renumber numbering) =
      .ok (events.map (Event.renumber numbering)) := by
  have walked := renumbered.run (2 ^ (table.size + 1) - 1) (Walk.start place)
  have start : (Walk.start place).renumber numbering =
      Walk.start (place.renumber numbering) := rfl
  rw [ProvenanceTable.derivation_eq] at derived ⊢
  rw [renumbered.size, ← start]
  generalize Walk.run table (2 ^ (table.size + 1) - 1) (Walk.start place) = last at walked derived
  generalize Walk.run image (2 ^ (table.size + 1) - 1)
    ((Walk.start place).renumber numbering) = last' at walked ⊢
  cases walked with
  | walking => cases derived
  | fault => cases derived
  | done reached =>
    cases derived
    rfl

end ProvenanceTable.RenumberedAs

/-! ## Trees -/

/-- The same part of the input, gone through by the renumbered rule under its name in the whole. -/
def Branch.renumber (numbering : Numbering) (whole : Network) (branch : Branch) : Branch where
  rule := numbering.rule branch.rule
  name := (whole.ruleName? (numbering.rule branch.rule)).getD branch.name
  span := branch.span
  children := branch.children

/-- The renumbered rule, or the same token. -/
def Node.renumber (numbering : Numbering) (whole : Network) : Node → Node
  | branch rule => branch (rule.renumber numbering whole)
  | leaf tip => leaf tip

/-- The tree of the same shape with the rules renumbered. -/
def ParseTree.renumber (numbering : Numbering) (whole : Network) (tree : ParseTree) :
    ParseTree where
  root := tree.root.renumber numbering whole
  nodes := tree.nodes.map (Node.renumber numbering whole)

/-- The renumbered rule, entered where the rule was. -/
def OpenBranch.renumber (numbering : Numbering) (whole : Network) (branch : OpenBranch) :
    OpenBranch where
  rule := numbering.rule branch.rule
  name := (whole.ruleName? (numbering.rule branch.rule)).getD branch.name
  start := branch.start
  children := branch.children

namespace Assembly

/-- The assembly of the same shape with the rules renumbered. -/
def renumber (numbering : Numbering) (whole : Network) (assembly : Assembly) : Assembly where
  cursor := assembly.cursor
  nodes := assembly.nodes.map (Node.renumber numbering whole)
  root := assembly.root.renumber numbering whole
  openBranches := assembly.openBranches.map (OpenBranch.renumber numbering whole)

variable {numbering : Numbering} {network whole : Network} {tokens : Array Token}

/-- Attaching a node and renumbering can be done in either order. -/
theorem renumber_attach (node : Node) (assembly : Assembly) :
    (assembly.attach node).renumber numbering whole =
      (assembly.renumber numbering whole).attach (node.renumber numbering whole) := by
  obtain ⟨cursor, nodes, root, openBranches⟩ := assembly
  cases openBranches <;> simp [attach, renumber, OpenBranch.addChild, OpenBranch.renumber]

/-- Consuming a token and renumbering can be done in either order. -/
theorem renumber_consumed (token : Token) (assembly : Assembly) :
    (assembly.consumed token).renumber numbering whole =
      (assembly.renumber numbering whole).consumed token := by
  obtain ⟨cursor, nodes, root, openBranches⟩ := assembly
  cases openBranches <;>
    simp [consumed, attach, renumber, OpenBranch.addChild, OpenBranch.renumber, Node.renumber]

/-- Leaving the innermost rule and renumbering can be done in either order. -/
theorem renumber_exitInnermost (assembly : Assembly) :
    assembly.exitInnermost.renumber numbering whole =
      (assembly.renumber numbering whole).exitInnermost := by
  obtain ⟨cursor, nodes, root, openBranches⟩ := assembly
  cases openBranches with
  | nil => rfl
  | cons innermost outer =>
    rw [exitInnermost, renumber_attach]
    rfl

/-- Leaving many rules and renumbering can be done in either order. -/
theorem renumber_exitMany (count : Nat) (assembly : Assembly) :
    (assembly.exitMany count).renumber numbering whole =
      (assembly.renumber numbering whole).exitMany count := by
  induction count generalizing assembly with
  | zero => rfl
  | succ count ih => rw [exitMany, exitMany, ih, renumber_exitInnermost]

/-- What is still open is closed under the new ids. -/
theorem finish_renumber (assembly : Assembly) :
    (assembly.renumber numbering whole).finish = assembly.finish.renumber numbering whole := by
  have length : (assembly.renumber numbering whole).openBranches.length =
      assembly.openBranches.length := List.length_map _
  rw [finish, finish, length, ← renumber_exitMany]
  rfl

/-- A rule that exists is entered under its new id and the name that it has there. -/
theorem exists_name (embeds : network.Embeds numbering whole) {rule : Nat} {name : String}
    (known : network.ruleName? rule = some name) :
    ∃ named, whole.ruleName? (numbering.rule rule) = some named := by
  obtain ⟨here, found, -⟩ := Option.map_eq_some_iff.1 known
  obtain ⟨there, found', -⟩ := embeds.exists_rule? found
  exact ⟨there.name, whole.ruleName?_of_rule? found'⟩

/-- **Events are accepted under the new ids.** -/
theorem Accepts.renumber (embeds : network.Embeds numbering whole) {event : Event}
    {assembly later : Assembly} (accepted : Accepts network tokens event assembly later) :
    Accepts whole tokens (event.renumber numbering) (assembly.renumber numbering whole)
      (later.renumber numbering whole) := by
  cases accepted with
  | @enter _ rule name known =>
    obtain ⟨named, there⟩ := exists_name embeds known
    have opened : (assembly.opened rule name).renumber numbering whole =
        (assembly.renumber numbering whole).opened (numbering.rule rule) named := by
      simp [Assembly.opened, Assembly.renumber, OpenBranch.renumber, there]
    rw [opened]
    exact .enter there
  | @exit _ innermost outer isOpen =>
    have isOpen' : (assembly.renumber numbering whole).openBranches =
        innermost.renumber numbering whole :: outer.map (OpenBranch.renumber numbering whole) := by
      rw [Assembly.renumber, isOpen, List.map_cons]
    rw [renumber_exitInnermost]
    exact .exit isOpen'
  | @consume _ token read =>
    have read' : tokens[(assembly.renumber numbering whole).cursor]? = some token := read
    rw [renumber_consumed]
    exact .consume read'

/-- Lists of events are taken under the new ids. -/
theorem pushAll_renumber (embeds : network.Embeds numbering whole) {events : List Event}
    {assembly last : Assembly} (taken : assembly.pushAll network tokens events = .ok last) :
    (assembly.renumber numbering whole).pushAll whole tokens
      (events.map (Event.renumber numbering)) = .ok (last.renumber numbering whole) := by
  induction events generalizing assembly with
  | nil =>
    cases taken
    rfl
  | cons event rest ih =>
    obtain ⟨next, accepted, others⟩ := pushAll_cons_eq_ok_iff.1 taken
    exact pushAll_cons_eq_ok_iff.2 ⟨_, accepted.renumber embeds, ih others⟩

end Assembly

/-- **The renumbered tree is assembled from the renumbered derivation.** -/
theorem ParseTree.assemble_renumber {numbering : Numbering} {network whole : Network}
    (embeds : network.Embeds numbering whole) {tokens : Array Token} {startRule : Nat}
    {events : List Event} {tree : ParseTree}
    (assembled : assemble network tokens startRule events = .ok tree) :
    assemble whole tokens (numbering.rule startRule) (events.map (Event.renumber numbering)) =
      .ok (tree.renumber numbering whole) := by
  obtain ⟨name, last, known, taken, rfl⟩ := assemble_eq_ok_iff.1 assembled
  obtain ⟨named, there⟩ := Assembly.exists_name embeds known
  have started : Assembly.rooted (numbering.rule startRule) named =
      (Assembly.rooted startRule name).renumber numbering whole := by
    simp [Assembly.rooted, Assembly.renumber, OpenBranch.renumber, there]
  refine assemble_eq_ok_iff.2 ⟨named, _, there, ?_, Assembly.finish_renumber _⟩
  rw [started]
  exact Assembly.pushAll_renumber embeds taken

/-! ## Runs -/

section

variable {numbering : Numbering} {network whole : Network} {start : Nat} {input : List Token}
  {findings image : Findings}

/-- A legal find is renumbered alike by numberings that agree on the network. -/
theorem Legal.renumber_eq {other : Numbering} (alike : numbering.AlikeOn network other)
    {graph : StackGraph} {place : Place} {why : Provenance}
    (legal : Legal network start input graph place why)
    (callers : ∀ node, ∀ caller ∈ graph.callers node,
      ∃ state, network.state? caller.state = some state) :
    why.renumber numbering = why.renumber other := by
  have inState : ∀ {item : Item} {transition : Transition},
      network.Offers item.state transition → item.renumber numbering = item.renumber other := by
    rintro item transition ⟨state, here, -⟩
    exact alike.item ⟨state, here⟩
  cases legal with
  | seed => rfl
  | epsilon offers => rw [Provenance.renumber, Provenance.renumber, inState offers]
  | scan offers => rw [Provenance.renumber, Provenance.renumber, inState offers]
  | predict offers =>
    obtain ⟨called, there, -⟩ := offers.rule?_of_call
    rw [Provenance.renumber, Provenance.renumber, inState offers, alike.rule _ _ there]
  | complete stops _ _ registered =>
    obtain ⟨named, there⟩ := stops.exists_rule?
    obtain ⟨state, here, -⟩ := stops
    rw [Provenance.renumber, Provenance.renumber, alike.item ⟨state, here⟩,
      alike.item (callers _ _ registered), alike.rule _ _ there]

end

/-- **Renumbered runs.** The items of every position and the finds are the renumbered ones in the
same order, there are as many nodes, and the run accepts at the renumbered place. -/
structure Recognition.RenumberedAs (numbering : Numbering) (recognition image : Recognition) :
    Prop where
  /-- The items of a position are found in the same order. -/
  items : ∀ position, (recognition.chart.itemsAt position).MapsTo (Item.renumber numbering)
    (image.chart.itemsAt position)
  /-- The finds are in the same order. -/
  finds : image.findings.finds = recognition.findings.finds.map
    (Prod.map (Place.renumber numbering) (Provenance.renumber numbering))
  /-- There are as many nodes. -/
  nodes : image.findings.stackGraph.size = recognition.findings.stackGraph.size
  /-- The run accepts at the renumbered place. -/
  accepting : image.accepting = recognition.accepting.map (Place.renumber numbering)

namespace Recognition.RenumberedAs

variable {numbering : Numbering} {network whole : Network} {start start' : Nat}
  {input input' : List Token} {recognition image : Recognition}

/-- Runs have as many positions, since they have items at the same ones. -/
theorem size_chart_eq (renumbered : recognition.RenumberedAs numbering image)
    (filled : recognition.findings.Filled) (filled' : image.findings.Filled) :
    image.chart.size = recognition.chart.size := by
  refine Nat.le_antisymm (filled'.size_le ?_) (filled.size_le ?_)
  · intro position item found
    have found : item ∈ (image.chart.itemsAt position).toList := found
    rw [renumbered.items position, List.mem_map] at found
    obtain ⟨another, there, -⟩ := found
    exact ⟨another, there⟩
  · intro position item found
    have there : item.renumber numbering ∈ (image.chart.itemsAt position).toList := by
      rw [renumbered.items position]
      exact List.mem_map_of_mem found
    exact ⟨item.renumber numbering, there⟩

/-- The sets of the chart list the renumbered items. -/
theorem set?_eq (renumbered : recognition.RenumberedAs numbering image)
    (size : image.chart.size = recognition.chart.size) (position : Nat) :
    (image.chart.set? position).map Enumeration.toList =
      (recognition.chart.set? position).map fun set =>
        set.toList.map (Item.renumber numbering) := by
  rw [Chart.set?_eq_ite, Chart.set?_eq_ite, size]
  split
  · exact congrArg some (renumbered.items position)
  · rfl

/-- Runs that are renumbered have the same statistics. -/
theorem statistics_eq (renumbered : recognition.RenumberedAs numbering image)
    (size : image.chart.size = recognition.chart.size)
    (coherent : recognition.findings.Coherent) (coherent' : image.findings.Coherent) :
    image.statistics = recognition.statistics := by
  have finds : image.findings.finds.length = recognition.findings.finds.length := by
    rw [renumbered.finds, List.length_map]
  obtain ⟨items, provenances⟩ := coherent.itemCount_eq
  obtain ⟨items', provenances'⟩ := coherent'.itemCount_eq
  simp only [statistics, RunStatistics.mk.injEq]
  refine ⟨size, ?_, renumbered.nodes, ?_⟩
  · rw [items, items', finds]
  · rw [provenances, provenances', items, items', finds]

/-- In runs that are renumbered the tables of provenance are. -/
theorem provenance (renumbered : recognition.RenumberedAs numbering image)
    (coherent : recognition.findings.Coherent) (coherent' : image.findings.Coherent) :
    recognition.findings.provenance.RenumberedAs numbering image.findings.provenance where
  find? place why recorded := by
    have member := (coherent.find?_eq_some_iff place why).1 recorded
    rw [coherent'.find?_eq_some_iff, renumbered.finds]
    exact List.mem_map_of_mem (f := Prod.map _ _) member
  size := by
    rw [coherent.size, coherent'.size, renumbered.finds, List.length_map]

end Recognition.RenumberedAs

namespace Network

variable {numbering : Numbering} {network whole : Network}

/-- A run keeps in step under a numbering that tells all ids apart. -/
theorem renumberedAs_recognitionFrom (injective : numbering.Injective)
    (embeds : network.Embeds numbering whole) {startRule startRule' : Nat} {rule named : Rule}
    (known : network.rule? startRule = some rule) (known' : whole.rule? startRule' = some named)
    (starts : named.start = numbering.state rule.start)
    (stops : named.stop = numbering.state rule.stop) (tokens : List Token) :
    (network.recognitionFrom startRule rule tokens).findings.RenumberedAs numbering
        (whole.recognitionFrom startRule' named tokens).findings ∧
      (whole.recognitionFrom startRule' named tokens).accepting =
        (network.recognitionFrom startRule rule tokens).accepting.map
          (Place.renumber numbering) := by
  have swept := network.swept_seeded known tokens
  have swept' := whole.swept_seeded known' tokens
  have inStep := (Findings.renumberedAs_seeded injective starts tokens tokens).sweep injective
    embeds swept swept' List.drop_zero
  have settled : (network.settledFrom rule tokens).RenumberedAs numbering
      (whole.settledFrom named tokens) := inStep.settle injective embeds
    (swept.sweep List.drop_zero (Nat.zero_le _)).linked
    (swept'.sweep List.drop_zero (Nat.zero_le _)).linked (beforeEndMarker tokens).length
  have accepts := settled.acceptance?_eq injective ⟨rule.stop, 0, emptyStack⟩
    (beforeEndMarker tokens).length
  have accept : Item.renumber numbering ⟨rule.stop, 0, emptyStack⟩ =
      ⟨named.stop, 0, emptyStack⟩ := by
    rw [stops]
    rfl
  rw [accept] at accepts
  constructor
  · rw [findings_recognitionFrom, findings_recognitionFrom]
    exact settled.noteVerdict _ _ _ _
  · rw [accepting_eq_acceptance?_settledFrom, accepting_eq_acceptance?_settledFrom]
    exact accepts

/-- **A run keeps in step where its network embeds.** It does under a numbering that tells all ids
apart, and what a run finds is renumbered alike by all that agree on the network. -/
theorem Embeds.recognition (embeds : network.Embeds numbering whole) {startRule : Nat}
    {rule named : Rule} (known : network.rule? startRule = some rule)
    (known' : whole.rule? (numbering.rule startRule) = some named)
    (starts : named.start = numbering.state rule.start)
    (stops : named.stop = numbering.state rule.stop) (tokens : List Token) :
    (network.recognitionFrom startRule rule tokens).RenumberedAs numbering
      (whole.recognitionFrom (numbering.rule startRule) named tokens) := by
  obtain ⟨wide, injective, alike, embeds'⟩ := embeds.exists_injective
  obtain ⟨first, foundFirst⟩ := network.exists_state?_start known
  obtain ⟨last, foundLast, -⟩ := network.stopsIn_stop known
  obtain ⟨renumbered, accepting⟩ := renumberedAs_recognitionFrom injective embeds' known known'
    (starts.trans (alike.state _ _ foundFirst)) (stops.trans (alike.state _ _ foundLast)) tokens
  obtain ⟨finished, accepts⟩ := network.finished_recognitionFrom known tokens
  generalize network.recognitionFrom startRule rule tokens = recognition at *
  generalize whole.recognitionFrom (numbering.rule startRule) named tokens = image at *
  have linked := finished.linked
  have inState : ∀ position item, recognition.findings.Has position item →
      item.renumber wide = item.renumber numbering :=
    fun position item found => (alike.item (linked.inState position item found)).symm
  refine ⟨?_, ?_, renumbered.stackGraph.size_eq, ?_⟩
  · intro position
    exact (renumbered.items position).trans (List.map_congr_left (inState position))
  · refine renumbered.finds.trans (List.map_congr_left ?_)
    rintro ⟨place, why⟩ member
    have found := linked.coherent.has_of_mem member
    have provenance := (linked.legal _ _ member).renumber_eq alike fun node caller registered => by
      obtain ⟨frame, entry, -, -, state, here, -⟩ := linked.callers node caller registered
      exact ⟨state, here⟩
    simp only [Prod.map, Place.renumber, inState _ _ found, provenance]
  · rw [accepting]
    refine Option.map_congr ?_
    rintro ⟨position, item⟩ isPlace
    rw [accepts] at isPlace
    obtain ⟨rfl, -, found⟩ := Findings.acceptance?_eq_some isPlace
    exact congrArg (Place.mk position) (inState _ _ found)

/-- A network embeds under its own ids into every network that it is part of. -/
theorem embeds_of_partOf (part : network.PartOf whole.toBlueprint) :
    network.Embeds .refl whole where
  state_inj _ _ _ _ := id
  rule_inj _ _ _ _ := id
  states id inside := by
    have here : network.state? id = some network.states[id] := Array.getElem?_eq_getElem inside
    rw [here, Option.map_some, State.renumber_refl]
    exact part.states id _ here
  starts id inside := by
    have here : network.rule? id = some network.rules[id] := Array.getElem?_eq_getElem inside
    rw [here]
    exact congrArg (Option.map Rule.start) (part.rules id _ here)
  stops id inside := by
    have here : network.rule? id = some network.rules[id] := Array.getElem?_eq_getElem inside
    rw [here]
    exact congrArg (Option.map Rule.stop) (part.rules id _ here)

/-- **What is added to a network changes no run** from a rule that it had before. -/
theorem recognition_of_partOf (part : network.PartOf whole.toBlueprint) {startRule : Nat}
    {rule : Rule} (known : network.rule? startRule = some rule) (tokens : List Token) :
    (network.recognitionFrom startRule rule tokens).RenumberedAs .refl
      (whole.recognitionFrom startRule rule tokens) :=
  (embeds_of_partOf part).recognition known (part.rules startRule rule known) rfl rfl tokens

/-- **Runs do not depend on the numbering, nor on what states and rules there are beside.** Where a
network embeds into another, the runs from a rule and from its image succeed on the same tokens. The
positions of the two charts list the same items in the same order, with the states renumbered and
the same origins and stacks; the runs accept at the same place and have the same statistics. A
derivation and a tree are read off both, if they accept: the same events and the same tree, with the
same spans, leaves and node ids, but for the ids and names of the rules. -/
theorem recognition_renumber (embeds : network.Embeds numbering whole) {startRule : Nat}
    {rule : Rule} (known : network.rule? startRule = some rule) (tokens : List Token) :
    ∃ recognition image events? tree?, network.recognition startRule tokens = .ok recognition ∧
      whole.recognition (numbering.rule startRule) tokens = .ok image ∧
      (∀ position, (image.chart.set? position).map Enumeration.toList =
        (recognition.chart.set? position).map fun set =>
          set.toList.map (Item.renumber numbering)) ∧
      image.accepting = recognition.accepting.map (Place.renumber numbering) ∧
      image.statistics = recognition.statistics ∧
      recognition.derivation = .ok events? ∧
      image.derivation = .ok (events?.map (List.map (Event.renumber numbering))) ∧
      recognition.tree = .ok tree? ∧
      image.tree = .ok (tree?.map (ParseTree.renumber numbering whole)) := by
  obtain ⟨named, known', starts, stops⟩ := embeds.exists_rule? known
  have renumbered := embeds.recognition known known' starts stops tokens
  obtain ⟨finished, -⟩ := network.finished_recognitionFrom known tokens
  obtain ⟨finished', -⟩ := whole.finished_recognitionFrom known' tokens
  have coherent := finished.linked.coherent
  have coherent' := finished'.linked.coherent
  have size := renumbered.size_chart_eq (network.filled_recognitionFrom startRule rule tokens)
    (whole.filled_recognitionFrom (numbering.rule startRule) named tokens)
  have statistics := renumbered.statistics_eq size coherent coherent'
  have ran := recognition_of_rule? known tokens
  have ran' := recognition_of_rule? known' tokens
  cases accepting : (network.recognitionFrom startRule rule tokens).accepting with
  | none =>
    have accepting' := renumbered.accepting
    rw [accepting] at accepting'
    obtain ⟨derived, noTree⟩ := Recognition.tree_eq_ok_none accepting
    obtain ⟨derived', noTree'⟩ := Recognition.tree_eq_ok_none accepting'
    exact ⟨_, _, none, none, ran, ran', renumbered.set?_eq size, renumbered.accepting, statistics,
      derived, derived', noTree, noTree'⟩
  | some place =>
    have accepting' := renumbered.accepting
    rw [accepting] at accepting'
    obtain ⟨events, tree, derived, isTree, -⟩ := exists_tree known accepting
    obtain ⟨walked, assembled⟩ := Recognition.eq_ok_of_tree_eq_ok accepting derived isTree
    have walked' := (renumbered.provenance coherent coherent').derivation walked
    have derived' : (whole.recognitionFrom (numbering.rule startRule) named tokens).derivation =
        .ok (some (events.map (Event.renumber numbering))) := by
      rw [Recognition.derivation, accepting']
      exact congrArg (Except.map some) walked'
    have isTree' := Recognition.tree_eq_ok derived' (ParseTree.assemble_renumber embeds assembled)
    exact ⟨_, _, some events, some tree, ran, ran', renumbered.set?_eq size, renumbered.accepting,
      statistics, derived, derived', isTree, isTree'⟩

end Network

/-! ## A sample -/

/-- The sample whose rule goes through itself twice, with its states in another order and a rule in
front that calls it. -/
def doublingMoved : Network where
  states :=
    #[⟨.basic, [.call 4 2 1]⟩,
      ⟨.start 0, [.call 4 3 1]⟩,
      ⟨.stop 1, []⟩,
      ⟨.stop 0, []⟩,
      ⟨.start 1, [.call 4 0 1, .terminal (.oneOf (.ofList [7, Token.endMarker])) 2,
        .epsilon .plain 2]⟩]
  rules := #[⟨"T", 1, 3⟩, ⟨"D", 4, 2⟩]
  faultless := by decide

/-- Where the states and the rule of the sample are moved. -/
def moving : Numbering where
  state id := if id = 0 then 4 else if id = 1 then 2 else 0
  rule id := id + 1

/-- The run of the sample on a seven is that of the sample moved, and so is its tree. -/
theorem Network.recognition_renumber_doubling :
    ∃ recognition image tree?, doubling.recognition 0 [7] = .ok recognition ∧
      doublingMoved.recognition 1 [7] = .ok image ∧
      image.accepting = recognition.accepting.map (Place.renumber moving) ∧
      image.statistics = recognition.statistics ∧ recognition.tree = .ok tree? ∧
      image.tree = .ok (tree?.map (ParseTree.renumber moving doublingMoved)) := by
  have known : doubling.rule? 0 = some ⟨"S", 0, 1⟩ := rfl
  have embeds : doubling.Embeds moving doublingMoved :=
    ⟨by decide, by decide, by decide, by decide, by decide⟩
  obtain ⟨recognition, image, events?, tree?, ran, ran', -, accepting, statistics, -, -, tree,
    tree'⟩ := recognition_renumber embeds known [7]
  exact ⟨recognition, image, tree?, ran, ran', accepting, statistics, tree, tree'⟩

end TransitionNetworks
