import TransitionNetworks.Proofs.Acceptance
import TransitionNetworks.Proofs.Run.Guards
import TransitionNetworks.Proofs.Tree.Derivations
import TransitionNetworks.Proofs.Tree.Leaves

/-! # Parsing

A run that accepts has derived the item that accepts, what derives it spells the input in front, and
what is spelled has a tree (`Network.exists_tree`). So parsing never fails but for a start rule that
does not exist, and agrees with recognition (`Network.parse_total`), and every branch of a tree is
justified by a path through its rule (`Network.tree_justified`). -/

namespace TransitionNetworks

/-- A run has a tree if a derivation is read off and its tree is assembled. -/
theorem Recognition.tree_eq_ok {recognition : Recognition} {events : List Event} {tree : ParseTree}
    (derived : recognition.derivation = .ok (some events))
    (assembled : ParseTree.assemble recognition.network recognition.input recognition.startRule
      events = .ok tree) : recognition.tree = .ok (some tree) := by
  simp only [Recognition.tree, derived, assembled]

/-- A run that accepts has the derivation of its place, and its tree is assembled from that. -/
theorem Recognition.eq_ok_of_tree_eq_ok {recognition : Recognition} {place : Place}
    (accepting : recognition.accepting = some place) {events : List Event} {tree : ParseTree}
    (derived : recognition.derivation = .ok (some events))
    (isTree : recognition.tree = .ok (some tree)) :
    recognition.findings.provenance.derivation place = .ok events ∧
      ParseTree.assemble recognition.network recognition.input recognition.startRule events =
        .ok tree := by
  constructor
  · rw [Recognition.derivation, accepting] at derived
    cases walked : recognition.findings.provenance.derivation place with
    | error fault => simp [walked, Except.map] at derived
    | ok reached => simpa [walked, Except.map] using derived
  · rw [Recognition.tree, derived] at isTree
    cases assembled : ParseTree.assemble recognition.network recognition.input
        recognition.startRule events with
    | error fault => simp [assembled] at isTree
    | ok whole => simpa [assembled] using isTree

/-- A run that does not accept has neither a derivation nor a tree, and that is no fault. -/
theorem Recognition.tree_eq_ok_none {recognition : Recognition}
    (rejected : recognition.accepting = none) :
    recognition.derivation = .ok none ∧ recognition.tree = .ok none := by
  have derived : recognition.derivation = .ok none := by
    rw [Recognition.derivation, rejected]
  refine ⟨derived, ?_⟩
  rw [Recognition.tree, derived]

namespace Network

variable {network : Network} {startRule : Nat} {rule : Rule} {tokens : List Token}

/-- **A run that accepts has a tree.** A derivation is read off, its tree is assembled, and the tree
reads the input up to where the run accepts and is justified. -/
theorem exists_tree (known : network.rule? startRule = some rule) {place : Place}
    (accepting : (network.recognitionFrom startRule rule tokens).accepting = some place) :
    ∃ events tree,
      (network.recognitionFrom startRule rule tokens).derivation = .ok (some events) ∧
      (network.recognitionFrom startRule rule tokens).tree = .ok (some tree) ∧
      tree.root.rule = startRule ∧ tree.root.span = ⟨0, place.position⟩ ∧
      place.position ≤ (inputOf tokens).length ∧
      tree.leaves = leavesUpTo (inputOf tokens).toArray place.position ∧
      tree.root.Justified network (inputOf tokens) tree.nodes rule.stop ∧
      ∀ branch, .branch branch ∈ tree.nodes → ∃ stop, network.StopsIn branch.rule stop ∧
        branch.Justified network (inputOf tokens) tree.nodes stop := by
  obtain ⟨finished, found⟩ := network.finished_recognitionFrom known tokens
  rw [accepting] at found
  obtain ⟨position, item⟩ := place
  obtain ⟨rfl, -, has⟩ := Findings.acceptance?_eq_some found.symm
  obtain ⟨forest, -, derived, spells⟩ := finished.linked.derivation has
  -- the events are taken as a growth of the assembly that starts with the root
  have named := network.ruleName?_of_rule? known
  obtain ⟨new, ids, taken, explains, justified⟩ :=
    spells.pushAll (Assembly.rooted startRule rule.name) rfl
  -- what is read and what is explained hold of the same assembly
  have reads := (Assembly.reads_start (Assembly.start_eq_ok_iff.2 ⟨_, named, rfl⟩)
    (inputOf tokens).toArray).pushAll taken
  obtain ⟨root, span, leaves⟩ := ParseTree.reads_finish reads
  have inside := reads.inside
  rw [Assembly.cursor_grow] at span leaves inside
  have events : (network.recognitionFrom startRule rule tokens).derivation =
      .ok (some forest.events) := by
    rw [Recognition.derivation, accepting]
    exact congrArg (Except.map some) derived
  have assembled := ParseTree.assemble_eq_ok_iff.2 ⟨_, _, named, taken, rfl⟩
  have isTree := Recognition.tree_eq_ok events assembled
  rw [Assembly.finish_grow_rooted] at root span leaves isTree
  refine ⟨forest.events, _, events, isTree, root, span, inside, leaves, ⟨rule, known, ?_⟩, ?_⟩
  · simpa [Assembly.rooted] using explains
  · intro branch member
    simpa [Assembly.rooted] using justified branch member

/-- A run from a rule that does not exist fails, whatever is asked of it. -/
theorem fails_of_rule?_eq_none (unknown : network.rule? startRule = none) :
    network.recognition startRule tokens = .error ⟨startRule, network.ruleCount⟩ ∧
      network.recognize startRule tokens = .error ⟨startRule, network.ruleCount⟩ ∧
      network.parse startRule tokens =
        .error (.missingStartRule ⟨startRule, network.ruleCount⟩) ∧
      network.guardedParse startRule tokens =
        .error (.parse (.missingStartRule ⟨startRule, network.ruleCount⟩)) := by
  have ran : network.recognition startRule tokens = .error ⟨startRule, network.ruleCount⟩ := by
    rw [recognition, unknown]
  have parsed : network.parse startRule tokens =
      .error (.missingStartRule ⟨startRule, network.ruleCount⟩) := by
    rw [parse, ran]
  refine ⟨ran, ?_, parsed, ?_⟩
  · rw [recognize, ran]
    rfl
  · rw [guardedParse_eq, parsed]
    rfl

/-- **Parsing never fails but for the start rule, and agrees with recognition.** Without the start
rule every request fails with it. With the start rule the run succeeds on the input, every item it
found is in a state of the network, so that a guarded run is not stopped, a derivation and a tree
are read off without a fault, and there is a tree exactly if the run accepts: then the root is the
start rule, from the first position to where the run accepts, and the leaves are those of the tokens
in between, in order. -/
theorem parse_total (network : Network) (startRule : Nat) (tokens : List Token) :
    (network.ruleCount ≤ startRule →
      network.recognition startRule tokens = .error ⟨startRule, network.ruleCount⟩ ∧
        network.recognize startRule tokens = .error ⟨startRule, network.ruleCount⟩ ∧
        network.parse startRule tokens =
          .error (.missingStartRule ⟨startRule, network.ruleCount⟩) ∧
        network.guardedParse startRule tokens =
          .error (.parse (.missingStartRule ⟨startRule, network.ruleCount⟩))) ∧
    (startRule < network.ruleCount → ∃ recognition events tree?,
      network.recognition startRule tokens = .ok recognition ∧
      network.guardedRecognition startRule tokens = .ok recognition ∧
      recognition.input = (inputOf tokens).toArray ∧
      (∀ position item, recognition.chart.contains position item = true →
        ∃ state, network.state? item.state = some state) ∧
      recognition.derivation = .ok events ∧ recognition.tree = .ok tree? ∧
      network.recognize startRule tokens = .ok recognition.isAccepted ∧
      network.parse startRule tokens = .ok tree? ∧
      network.guardedParse startRule tokens = .ok tree? ∧
      tree?.isSome = recognition.isAccepted ∧
      ∀ place, recognition.accepting = some place → ∃ tree, tree? = some tree ∧
        tree.root.rule = startRule ∧ tree.root.span = ⟨0, place.position⟩ ∧
        tree.leaves.map Leaf.index = List.range place.position ∧
        tree.tokens = recognition.input.toList.take place.position) := by
  constructor
  · intro missing
    exact fails_of_rule?_eq_none (Array.getElem?_eq_none missing)
  · intro present
    have known : network.rule? startRule = some network.rules[startRule] :=
      Array.getElem?_eq_getElem present
    generalize network.rules[startRule] = rule at known
    obtain ⟨finished, -⟩ := network.finished_recognitionFrom known tokens
    have ran := recognition_of_rule? known tokens
    have guardedRun := guardedRecognition_of_recognition ran
    have inState : ∀ position item,
        (network.recognitionFrom startRule rule tokens).chart.contains position item = true →
          ∃ state, network.state? item.state = some state := by
      intro position item contains
      exact finished.linked.inState position item ((Findings.has_iff_contains _ _ _).2 contains)
    have recognized : network.recognize startRule tokens =
        .ok (network.recognitionFrom startRule rule tokens).isAccepted := by
      rw [recognize, ran]
      rfl
    have parsed : network.parse startRule tokens =
        (network.recognitionFrom startRule rule tokens).tree := by
      rw [parse, ran]
    cases accepting : (network.recognitionFrom startRule rule tokens).accepting with
    | none =>
      obtain ⟨derived, noTree⟩ := Recognition.tree_eq_ok_none accepting
      have parses := parsed.trans noTree
      refine ⟨_, none, none, ran, guardedRun, rfl, inState, derived, noTree, recognized, parses,
        guardedParse_of_parse parses, ?_, ?_⟩
      · rw [Recognition.isAccepted, accepting]
        rfl
      · intro place accepted
        rw [accepting] at accepted
        cases accepted
    | some place =>
      obtain ⟨events, tree, derived, isTree, root, span, inside, leaves, -⟩ :=
        exists_tree known accepting
      have parses := parsed.trans isTree
      refine ⟨_, some events, some tree, ran, guardedRun, rfl, inState, derived, isTree, recognized,
        parses, guardedParse_of_parse parses, ?_, ?_⟩
      · rw [Recognition.isAccepted, accepting]
        rfl
      · intro other accepted
        rw [accepting] at accepted
        cases accepted
        refine ⟨tree, rfl, root, span, ?_, ?_⟩
        · rw [leaves, map_index_leavesUpTo (by simpa using inside)]
        · rw [ParseTree.tokens, leaves, map_token_leavesUpTo]
          rfl

/-- **Trees are justified.** A run that accepts has a tree. The root is explained by a trail from
the start of the start rule to its stop state, and every branch below it by a trail from the start
of its rule to a state in which the rule stops. -/
theorem tree_justified {network : Network} {startRule : Nat} {tokens : List Token}
    {recognition : Recognition} (ran : network.recognition startRule tokens = .ok recognition)
    {place : Place} (accepting : recognition.accepting = some place) :
    ∃ rule tree, network.rule? startRule = some rule ∧ recognition.tree = .ok (some tree) ∧
      tree.root.rule = startRule ∧ network.StopsIn startRule rule.stop ∧
      tree.root.Justified network recognition.input.toList tree.nodes rule.stop ∧
      ∀ branch, .branch branch ∈ tree.nodes → ∃ stop, network.StopsIn branch.rule stop ∧
        branch.Justified network recognition.input.toList tree.nodes stop := by
  cases known : network.rule? startRule with
  | none =>
    -- a run that succeeds begins from a rule that exists
    rw [Network.recognition, known] at ran
    cases ran
  | some rule =>
    rw [recognition_of_rule? known] at ran
    cases ran
    obtain ⟨events, tree, -, isTree, root, -, -, -, justified⟩ := exists_tree known accepting
    exact ⟨rule, tree, rfl, isTree, root, network.stopsIn_stop known, justified⟩

/-- The tree of a seven and the end marker in the sample is justified. -/
theorem tree_justified_doubling :
    ∃ tree, doubling.parse 0 [7] = .ok (some tree) ∧ tree.root.rule = 0 ∧
      tree.root.Justified doubling (inputOf [7]) tree.nodes 1 := by
  have known : doubling.rule? 0 = some ⟨"S", 0, 1⟩ := rfl
  have ran : doubling.recognition 0 [7] = .ok (doubling.recognitionFrom 0 ⟨"S", 0, 1⟩ [7]) := rfl
  have accepting : (doubling.recognitionFrom 0 ⟨"S", 0, 1⟩ [7]).accepting =
      some ⟨2, ⟨1, 0, emptyStack⟩⟩ := by decide +kernel
  obtain ⟨rule, tree, found, isTree, root, -, justified, -⟩ := tree_justified ran accepting
  rw [known] at found
  cases found
  exact ⟨tree, isTree, root, justified⟩

end Network

end TransitionNetworks
