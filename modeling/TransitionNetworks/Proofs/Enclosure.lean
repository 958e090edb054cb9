import TransitionNetworks.Proofs.Grammar.Construction
import TransitionNetworks.Proofs.Grammar.Regions
import TransitionNetworks.Proofs.Run.Records

/-! # Calls keep to their rules

In the network of a grammar a run stays inside the rule that was called: an item on a node is in a
state of the rule of the node's frame, and an item outside all calls in one of the start rule
(`Findings.Encloses`). So a rule that stops inside a call is the rule called, and goes on from every
caller; no stop is left aside. `Grammar.enclosed_stages` says so of every stage of a run. -/

namespace TransitionNetworks

namespace Findings

variable {grammar : Grammar} {network : Network} {startRule : Nat} {input : List Token}
  {findings : Findings} {position : Nat} {item : Item}

/-- **Enclosed items.** Outside all calls an item is in a state of the start rule, and inside a call
in a state of the rule called. -/
def Encloses (grammar : Grammar) (network : Network) (startRule : Nat) (findings : Findings)
    (item : Item) : Prop :=
  item.stack = emptyStack ∧ grammar.HasState network startRule item.state ∨
    ∃ frame, findings.stackGraph.frame? item.stack = some frame ∧
      grammar.HasState network frame.rule item.state

/-- An item stays enclosed along the transitions of its rule. -/
theorem Encloses.next (built : grammar.toNetwork = .ok network)
    (encloses : findings.Encloses grammar network startRule item) {transition : Transition}
    (offers : network.Offers item.state transition) :
    findings.Encloses grammar network startRule (item.withState transition.next) := by
  rcases encloses with ⟨outside, inRule⟩ | ⟨frame, here, inRule⟩
  · exact .inl ⟨outside, inRule.next built offers⟩
  · exact .inr ⟨frame, here, inRule.next built offers⟩

/-- **A rule that stops inside a call is the rule called.** -/
theorem Encloses.rule_eq (built : grammar.toNetwork = .ok network)
    (encloses : findings.Encloses grammar network startRule item) {frame : Frame}
    (here : findings.stackGraph.frame? item.stack = some frame) {rule : Nat}
    (stops : network.StopsIn rule item.state) : frame.rule = rule := by
  rcases encloses with ⟨outside, -⟩ | ⟨frame', here', inRule⟩
  · rw [outside] at here
    cases here
  · rw [here] at here'
    cases here'
    exact (inRule.eq_of_stopsIn built stops).symm

/-- **Every item found is enclosed.** The induction is on the order of discovery. A step inside a
rule keeps to it, a call enters the rule of its frame, and the callers of a node go on in the rule
in which they made the call. -/
theorem Linked.encloses (built : grammar.toNetwork = .ok network)
    {production : Production String} (defined : grammar.productions[startRule]? = some production)
    (linked : findings.Linked network (startState startRule) input)
    (found : findings.Has position item) :
    findings.Encloses grammar network startRule item := by
  induction rank : findings.rank ⟨position, item⟩ using Nat.strongRecOn
    generalizing position item with
  | ind rank ih =>
  subst rank
  obtain ⟨why, member⟩ := linked.coherent.exists_find found
  have back : ∀ source ∈ why.sources position,
      findings.Encloses grammar network startRule source.item :=
    fun source isSource => ih _ (linked.earlier _ _ member source isSource)
      (linked.has_source member isSource) rfl
  cases linked.legal _ _ member with
  | seed => exact .inl ⟨rfl, .start defined⟩
  | epsilon offers => exact (back _ (List.mem_cons_self ..)).next built offers
  | predict offers here => exact .inr ⟨_, here, grammar.hasState_of_call built offers⟩
  | complete stops here origin registered =>
    obtain ⟨-, entry, offers⟩ := linked.caller here registered
    exact (back _ (List.mem_cons_of_mem _ (List.mem_cons_self ..))).next built offers
  | scan offers => exact (back _ (List.mem_cons_self ..)).next built offers

end Findings

/-- The line about a stop that is left aside is that of no other occurrence. -/
theorem Occurrence.line?_strayStop_ne {input : Array Token} {stop : Item} {rule called : Nat}
    {occurrence : Occurrence}
    (same : occurrence.line? input = (Occurrence.strayStop stop rule called).line? input) :
    ∃ stop' rule' called', occurrence = .strayStop stop' rule' called' := by
  cases occurrence with
  | strayStop stop' rule' called' => exact ⟨stop', rule', called', rfl⟩
  | ignored count position =>
    -- one line begins with an I, the other with an S
    have texts := congrArg (Option.map fun line => line.text.toList.head?) same
    simp [line?, String.toList_append] at texts
  | found position item why => cases why <;> simp [line?, lineOfFind?] at same
  | surveyed | accepted | rejected => simp [line?] at same

namespace Grammar

variable {grammar : Grammar} {network : Network} {startRule : Nat} {rule : Rule}

/-- A rule of the network of a grammar is one of the grammar, and starts in its start state. -/
theorem exists_production_of_rule? (built : grammar.toNetwork = .ok network)
    (known : network.rule? startRule = some rule) :
    rule.start = startState startRule ∧
      ∃ production, grammar.productions[startRule]? = some production := by
  obtain ⟨productions, resolved, laidOut⟩ := exists_layout built
  obtain ⟨-, all⟩ := corresponds_of_resolve resolved
  rw [laidOut.rules] at known
  obtain ⟨image, there, rfl⟩ := Option.map_eq_some_iff.1 known
  obtain ⟨production, defined, -⟩ := exists_getElem?_of_forall₂ all.flip there
  exact ⟨rfl, production, defined⟩

/-- **No stop is left aside** in a run of the network of a grammar. -/
theorem strayStop_not_mem_history (built : grammar.toNetwork = .ok network)
    (known : network.rule? startRule = some rule) (tokens : List Token) (stop : Item)
    (stopped called : Nat) :
    .strayStop stop stopped called ∉
      (network.recognitionFrom startRule rule tokens).findings.history.toList := by
  obtain ⟨starts, production, defined⟩ := exists_production_of_rule? built known
  have records : (network.settledFrom rule tokens).Records fun occurrence =>
      ∀ stop stopped called, occurrence ≠ .strayStop stop stopped called := by
    refine network.records_settledFrom known tokens ⟨fun _ _ _ => nofun, fun _ _ _ => nofun, ?_⟩
      fun _ _ => nofun
    intro findings position stop rule frame linked found stops here different
    -- the rule that stops is the one called
    rw [starts] at linked
    exact absurd ((linked.encloses built defined found).rule_eq built here stops) different
  have ended : (network.recognitionFrom startRule rule tokens).findings.Records fun occurrence =>
      ∀ stop stopped called, occurrence ≠ .strayStop stop stopped called := by
    rw [network.findings_recognitionFrom]
    unfold Findings.noteVerdict
    split
    · exact records.note fun _ _ _ => nofun
    · exact records.note fun _ _ _ => nofun
  exact fun member => ended _ member stop stopped called rfl

/-- **Calls keep to their rules.** In the network of a grammar a run from a rule that exists
succeeds and passes from its seed through its stages. At every stage an item found outside all calls
is in a state of the start rule and an item inside a call in one of the rule called, a rule that
stops inside a call is the rule called, and no stop has been left aside. In the end every rule that
stopped inside a call has gone on from all callers, and the log has no line about a stop that is
left aside. -/
theorem enclosed_stages (built : grammar.toNetwork = .ok network)
    (known : network.rule? startRule = some rule) (tokens : List Token) :
    ∃ recognition, network.recognition startRule tokens = .ok recognition ∧
      Passage network (inputOf tokens) (Findings.seeded rule tokens)
        (network.stages startRule rule tokens) recognition.findings ∧
      (∀ stage ∈ Findings.seeded rule tokens :: network.stages startRule rule tokens,
        (∀ position item, stage.Has position item →
          stage.Encloses grammar network startRule item ∧
            ∀ frame stopped, stage.stackGraph.frame? item.stack = some frame →
              network.StopsIn stopped item.state → frame.rule = stopped) ∧
        ∀ stop stopped called, .strayStop stop stopped called ∉ stage.history.toList) ∧
      (∀ position stop frame stopped, recognition.findings.Has position stop →
        recognition.findings.stackGraph.frame? stop.stack = some frame →
        network.StopsIn stopped stop.state →
        ∀ caller ∈ recognition.findings.stackGraph.callers stop.stack,
          recognition.findings.Has position (caller.withState frame.follow)) ∧
      ∀ stop stopped called, ∀ line ∈ recognition.log,
        (Occurrence.strayStop stop stopped called).line? recognition.input ≠ some line := by
  obtain ⟨starts, production, defined⟩ := exists_production_of_rule? built known
  have noStray := strayStop_not_mem_history built known tokens
  have passage := network.passage_stages startRule rule tokens
  refine ⟨_, Network.recognition_of_rule? known tokens, passage, ?_, ?_, ?_⟩
  · intro stage member
    have linked := network.linked_stages known tokens stage member
    rw [starts] at linked
    refine ⟨?_, ?_⟩
    · intro position item found
      have encloses := linked.encloses built defined found
      exact ⟨encloses, fun frame stopped here stops => encloses.rule_eq built here stops⟩
    · have earlier := passage.history_isPrefix stage member
      exact fun stop stopped called inStage => noStray stop stopped called (earlier.subset inStage)
  · intro position stop frame stopped found here stops
    have finished := (network.finished_recognitionFrom known tokens).1
    rw [starts] at finished
    have same := (finished.linked.encloses built defined found).rule_eq built here stops
    exact (finished.settled position stop found).returned frame here (same ▸ stops)
  · intro stop stopped called line inLog same
    obtain ⟨occurrence, happened, isLine⟩ := List.mem_filterMap.1 inLog
    obtain ⟨stop', rule', called', rfl⟩ :=
      Occurrence.line?_strayStop_ne (isLine.trans same.symm)
    exact noStray stop' rule' called' happened

/-- The run on nested parentheses keeps to its rule and leaves no stop aside. -/
theorem enclosed_stages_nestedParens :
    ∃ network recognition, Samples.nestedParens.toNetwork = .ok network ∧
      network.recognition 0 [Samples.openParen, Samples.atom, Samples.closeParen] =
        .ok recognition ∧
      Passage network (inputOf [Samples.openParen, Samples.atom, Samples.closeParen])
        (Findings.seeded ⟨"E", 0, 1⟩ [Samples.openParen, Samples.atom, Samples.closeParen])
        (network.stages 0 ⟨"E", 0, 1⟩ [Samples.openParen, Samples.atom, Samples.closeParen])
        recognition.findings ∧
      (∀ stage ∈
        Findings.seeded ⟨"E", 0, 1⟩ [Samples.openParen, Samples.atom, Samples.closeParen] ::
          network.stages 0 ⟨"E", 0, 1⟩ [Samples.openParen, Samples.atom, Samples.closeParen],
        ∀ position item, stage.Has position item →
          stage.Encloses Samples.nestedParens network 0 item ∧
            ∀ frame stopped, stage.stackGraph.frame? item.stack = some frame →
              network.StopsIn stopped item.state → frame.rule = stopped) ∧
      ∀ stop stopped called, ∀ line ∈ recognition.log,
        (Occurrence.strayStop stop stopped called).line? recognition.input ≠ some line := by
  have resolved : Samples.nestedParens.resolve = .ok [⟨"E",
      [[.consume (.oneOf (.ofList [Samples.openParen])), .call 0,
          .consume (.oneOf (.ofList [Samples.closeParen]))],
        [.consume (.oneOf (.ofList [Samples.atom]))]]⟩] := by
    decide +kernel
  obtain ⟨network, built, same⟩ := exists_network resolved
  have known : network.rule? 0 = some ⟨"E", 0, 1⟩ := by
    rw [same]
    rfl
  obtain ⟨recognition, ran, passage, stages, -, unlogged⟩ := enclosed_stages built known
    [Samples.openParen, Samples.atom, Samples.closeParen]
  exact ⟨network, recognition, built, ran, passage, fun stage member => (stages stage member).1,
    unlogged⟩

end Grammar

end TransitionNetworks
