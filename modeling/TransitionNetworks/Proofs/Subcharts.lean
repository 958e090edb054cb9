import TransitionNetworks.Proofs.Acceptance
import Mathlib.Data.Set.Basic

/-! # What a call finds

The items on one node are the chart of its call inside the chart of the run. A finished run has an
item on a node in a state exactly if a path leads there from the start of the rule called, on the
tokens from where the call began (`Findings.Finished.mem_statesOn_iff`). The state to go to behind
the call plays no part in it, so calls of one rule at one position find the same, whoever makes
them and however late (`Network.statesOn_eq`). -/

namespace TransitionNetworks

namespace Findings

/-- **The states found on a stack** at a position. -/
def statesOn (findings : Findings) (stack position : Nat) : Set Nat :=
  {state | ∃ item, findings.Has position item ∧ item.stack = stack ∧ item.state = state}

variable {network : Network} {start : Nat} {input : List Token} {findings : Findings}

/-- **A call finds what is reached by paths** through its rule, on the tokens from where it began.
-/
theorem Finished.mem_statesOn_iff (finished : findings.Finished network start input) {node : Nat}
    {frame : Frame} (here : findings.stackGraph.frame? node = some frame) {called : Rule}
    (known : network.rule? frame.rule = some called) (position state : Nat) :
    state ∈ findings.statesOn node position ↔
      frame.position ≤ position ∧ position ≤ input.length ∧
        network.Path called.start (between frame.position position input) state := by
  constructor
  · -- what an item spells since the start of its rule is a path
    rintro ⟨item, found, rfl, rfl⟩
    obtain ⟨forest, base, -, isBase, spells⟩ := finished.linked.derived found
    generalize stack : item.stack = node at isBase here
    cases isBase with
    | outside => cases here
    | inside here' known' =>
      rw [here'] at here
      cases here
      rw [known'] at known
      cases known
      exact ⟨spells.le, finished.bounded _ _ found, spells.path⟩
  · rintro ⟨began, inside, path⟩
    -- the node has a caller, which is settled, so the start of the rule is found on the node
    obtain ⟨caller, -, found, entry, offers⟩ := finished.linked.exists_caller here
    obtain ⟨other, there, entered, -⟩ := (finished.settled _ _ found).followed _ offers
    obtain ⟨called', known', rfl⟩ := offers.rule?_of_call
    rw [known] at known'
    cases known'
    have same := StackGraph.frame?_inj here there
    subst same
    have reached := finished.has_of_path path ⟨called.start, frame.position, node⟩ entered
      (List.take_prefix _ _)
    have length : frame.position + (between frame.position position input).length = position := by
      rw [between, List.length_take, List.length_drop]
      omega
    rw [length] at reached
    exact ⟨_, reached, rfl, rfl⟩

/-- Outside all calls a run finds what is reached by paths from its start. -/
theorem Finished.mem_statesOn_emptyStack_iff (finished : findings.Finished network start input)
    (position state : Nat) :
    state ∈ findings.statesOn emptyStack position ↔
      position ≤ input.length ∧ network.Path start (input.take position) state := by
  rw [← finished.has_iff_path]
  constructor
  · rintro ⟨⟨state, origin, stack⟩, found, rfl, rfl⟩
    -- outside all calls items begin at the first position
    rcases finished.linked.placed position _ found with ⟨-, began⟩ | ⟨frame, here, -⟩
    · have began : origin = 0 := began
      rwa [began] at found
    · cases here
  · intro found
    exact ⟨_, found, rfl, rfl⟩

end Findings

namespace Network

/-- **A call finds the same whoever makes it.** From a rule that exists a run succeeds. On nodes
whose frames have the same rule and the same position it finds the same states at every position,
and on a node that calls the start rule at the first position those that it finds outside all calls.
-/
theorem statesOn_eq (network : Network) {startRule : Nat} {rule : Rule}
    (known : network.rule? startRule = some rule) (tokens : List Token) :
    ∃ recognition, network.recognition startRule tokens = .ok recognition ∧
      (∀ node other frame another, recognition.findings.stackGraph.frame? node = some frame →
        recognition.findings.stackGraph.frame? other = some another →
        another.rule = frame.rule → another.position = frame.position → ∀ position,
          recognition.findings.statesOn other position =
            recognition.findings.statesOn node position) ∧
      ∀ node frame, recognition.findings.stackGraph.frame? node = some frame →
        frame.rule = startRule → frame.position = 0 → ∀ position,
          recognition.findings.statesOn node position =
            recognition.findings.statesOn emptyStack position := by
  obtain ⟨finished, -⟩ := network.finished_recognitionFrom known tokens
  refine ⟨_, recognition_of_rule? known tokens, ?_, ?_⟩
  · intro node other frame another here there sameRule samePosition position
    -- both are the call of a rule that exists, since it has a caller
    obtain ⟨caller, -, -, entry, offers⟩ := finished.linked.exists_caller here
    obtain ⟨called, called?, -⟩ := offers.rule?_of_call
    ext state
    rw [finished.mem_statesOn_iff here called?, finished.mem_statesOn_iff there
      (by rw [sameRule]; exact called?), samePosition]
  · intro node frame here isStart began position
    ext state
    rw [finished.mem_statesOn_iff here (by rw [isStart]; exact known),
      finished.mem_statesOn_emptyStack_iff, began, between_zero]
    simp

/-- In the run of the sample on a seven the first call and the second one, which is made behind it
where it has consumed nothing, both find behind the seven that the rule may stop, as is found
outside all calls. -/
theorem statesOn_eq_doubling :
    ∃ recognition node other, doubling.recognition 0 [7] = .ok recognition ∧
      recognition.findings.stackGraph.frame? node = some ⟨2, 0, 0⟩ ∧
      recognition.findings.stackGraph.frame? other = some ⟨1, 0, 0⟩ ∧
      recognition.findings.statesOn other 1 = recognition.findings.statesOn node 1 ∧
      1 ∈ recognition.findings.statesOn node 1 := by
  have known : doubling.rule? 0 = some ⟨"S", 0, 1⟩ := rfl
  obtain ⟨recognition, ran, same, outside⟩ := statesOn_eq doubling known [7]
  obtain ⟨finished, -⟩ := doubling.finished_recognitionFrom known [7]
  rw [recognition_of_rule? known [7]] at ran
  cases ran
  -- in front of the seven the rule is called, and called again when it has consumed nothing
  have calls : doubling.Offers 0 (.call 0 2 0) := ⟨_, rfl, rfl, by decide⟩
  have again : doubling.Offers 2 (.call 0 1 0) := ⟨_, rfl, rfl, by decide⟩
  have skips : doubling.Offers 0 (.epsilon .plain 1) := ⟨_, rfl, rfl, by decide⟩
  have nothing : doubling.Path 0 [] 1 := (Path.refl 0).epsilon skips
  have behind : doubling.Path 0 [] 2 := (Path.refl 0).call calls nothing ⟨_, rfl, rfl⟩
  have first := (finished.has_iff_path 0 0).2 ⟨Nat.zero_le _, .refl 0⟩
  have second := (finished.has_iff_path 0 2).2 ⟨Nat.zero_le _, behind⟩
  obtain ⟨node, here, -⟩ := (finished.settled _ _ first).followed _ calls
  obtain ⟨other, there, -⟩ := (finished.settled _ _ second).followed _ again
  refine ⟨_, node, other, recognition_of_rule? known [7], here, there,
    same node other _ _ here there rfl rfl 1, ?_⟩
  -- what the first call finds behind the seven is what is found outside all calls
  rw [outside node _ here rfl rfl 1]
  exact (finished.mem_statesOn_emptyStack_iff 1 1).2
    ⟨by decide, doubling_path_singleton (List.mem_cons_self ..)⟩

end Network

end TransitionNetworks
