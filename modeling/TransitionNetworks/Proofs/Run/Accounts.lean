import TransitionNetworks.Proofs.Run.Counts

/-! # What a run keeps account of

At every stage of a run the chart, the graph of stacks and the provenance account for each other
(`Findings.Accounted`): there is a provenance for every item at every position and for nothing else,
every item is in a state of the network and stands where its stack says, and its provenance is a
legal step from items that were found earlier.

`Network.accounted_stages` says so of the seed of a run and of what it has found after each of its
steps; that the order of discovery goes down along provenance is what makes reading off a derivation
come to an end. -/

namespace TransitionNetworks

namespace Findings

/-- **Accounted findings** of a network that starts in a state and reads an input. -/
structure Accounted (network : Network) (start : Nat) (input : List Token) (findings : Findings) :
    Prop where
  /-- The items found are those that have a provenance. -/
  recorded : ∀ position item, findings.chart.contains position item = true ↔
    ∃ why, findings.provenance.find? ⟨position, item⟩ = some why
  /-- There is one provenance for each item at each position. -/
  count : findings.provenance.size = findings.chart.itemCount
  /-- Every item is in a state of the network. -/
  inState : ∀ position item, findings.chart.contains position item = true →
    ∃ state, network.state? item.state = some state
  /-- An item stands outside all calls and begins at the first position, or it stands on a node
  with a frame and begins where the call of the frame began, not behind its own position. -/
  placed : ∀ position item, findings.chart.contains position item = true →
    item.stack = emptyStack ∧ item.origin = 0 ∨
      ∃ frame, findings.stackGraph.frame? item.stack = some frame ∧
        item.origin = frame.position ∧ item.origin ≤ position
  /-- Every provenance is a legal step to its item. -/
  legal : ∀ place why, findings.provenance.find? place = some why →
    Legal network start input findings.stackGraph place why
  /-- Every provenance refers to items that are found, and were found earlier. -/
  earlier : ∀ place why, findings.provenance.find? place = some why →
    ∀ source ∈ why.sources place.position,
      findings.chart.contains source.position source.item = true ∧
        findings.rank source < findings.rank place

variable {network : Network} {start : Nat} {input : List Token} {findings : Findings}

/-- Linked findings are accounted for. -/
theorem Linked.accounted (linked : findings.Linked network start input) :
    findings.Accounted network start input := by
  have coherent := linked.coherent
  refine ⟨?_, coherent.itemCount_eq.2, ?_, ?_, ?_, ?_⟩
  · intro position item
    rw [← has_iff_contains]
    constructor
    · intro found
      obtain ⟨why, member⟩ := coherent.exists_find found
      exact ⟨why, (coherent.find?_eq_some_iff _ _).2 member⟩
    · rintro ⟨why, recorded⟩
      have member := (coherent.find?_eq_some_iff _ _).1 recorded
      exact coherent.has_of_mem member
  · intro position item contains
    exact linked.inState position item ((has_iff_contains _ _ _).2 contains)
  · intro position item contains
    rcases linked.placed position item ((has_iff_contains _ _ _).2 contains) with
      outside | ⟨frame, here, began, before⟩
    · exact Or.inl outside
    · exact Or.inr ⟨frame, here, began, began ▸ before⟩
  · intro place why recorded
    exact linked.legal place why ((coherent.find?_eq_some_iff place why).1 recorded)
  · intro place why recorded source isSource
    have member := (coherent.find?_eq_some_iff place why).1 recorded
    exact ⟨(has_iff_contains _ _ _).1 (linked.has_source member isSource),
      linked.earlier place why member source isSource⟩

end Findings

namespace Network

/-- **A run accounts for what it finds, at every stage.** From a rule that exists a run succeeds. It
passes from its seed through its stages, each behind the one in front of it by a prediction, an
epsilon step, a completion, a scan or a note, and the findings are accounted for at the seed and at
every stage. -/
theorem accounted_stages (network : Network) {startRule : Nat} {rule : Rule}
    (known : network.rule? startRule = some rule) (tokens : List Token) :
    ∃ recognition, network.recognition startRule tokens = .ok recognition ∧
      Passage network (inputOf tokens) (Findings.seeded rule tokens)
        (network.stages startRule rule tokens) recognition.findings ∧
      ∀ stage ∈ Findings.seeded rule tokens :: network.stages startRule rule tokens,
        stage.Accounted network rule.start (inputOf tokens) := by
  refine ⟨_, recognition_of_rule? known tokens, network.passage_stages startRule rule tokens, ?_⟩
  intro stage member
  exact (network.linked_stages known tokens stage member).accounted

/-- The run of the sample on a seven accounts for what it finds at every stage. -/
theorem accounted_stages_doubling :
    ∃ recognition, doubling.recognition 0 [7] = .ok recognition ∧
      Passage doubling [7, Token.endMarker] (Findings.seeded ⟨"S", 0, 1⟩ [7])
        (doubling.stages 0 ⟨"S", 0, 1⟩ [7]) recognition.findings ∧
      ∀ stage ∈ Findings.seeded ⟨"S", 0, 1⟩ [7] :: doubling.stages 0 ⟨"S", 0, 1⟩ [7],
        stage.Accounted doubling 0 [7, Token.endMarker] := by
  have known : doubling.rule? 0 = some ⟨"S", 0, 1⟩ := rfl
  exact accounted_stages doubling known [7]

end Network

end TransitionNetworks
