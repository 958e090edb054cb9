import TransitionNetworks.Proofs.Run.Counts

/-! # How long a run goes on

The loops of a run have no bound of their own: a position is closed until no item is left
(`ClosingLoop`), and the sweep goes on as long as items lead on (`SweepLoop`). Both come to an end
on every input (`Findings.Swept.loop_sweep`).

What the run has found by then is bounded by the size of the network and the length of the input
(`Network.recognition_bounded`): the chart has a position for each token, one for the end marker and
one in front at most, and an item at each of them, since items only come from items at the same
position or the one in front (`Findings.Linked.exists_has_of_le`). -/

namespace TransitionNetworks

namespace Findings

/-- Leave a position that is closed: the token there is scanned and the visit is noted. -/
def leave (network : Network) (position : Nat) (token : Token) (findings : Findings) : Findings :=
  let findings := findings.scanAll network position token
  findings.note (.surveyed position (findings.chart.countAt position)
    (findings.chart.countAt (position + 1)))

/-- To visit a position is to close it and to leave it. -/
theorem visit_eq_leave (network : Network) (position : Nat) (token : Token) (findings : Findings) :
    findings.visit network position token =
      (findings.close network position).leave network position token := rfl

end Findings

/-- **The sweep loop.** Positions are closed and left one after the other until the tokens are used
up or no item leads on. -/
inductive SweepLoop (network : Network) : Nat → List Token → Findings → Findings → Prop
  /-- The tokens are used up. -/
  | stop {position : Nat} {findings : Findings} : SweepLoop network position [] findings findings
  /-- No item leads on. -/
  | last {position : Nat} {token : Token} {rest : List Token} {findings closed : Findings}
      (closes : ClosingLoop network position 0 findings closed)
      (none : (closed.leave network position token).chart.countAt (position + 1) = 0) :
      SweepLoop network position (token :: rest) findings (closed.leave network position token)
  /-- Items lead on to the next position. -/
  | next {position : Nat} {token : Token} {rest : List Token} {findings closed later : Findings}
      (closes : ClosingLoop network position 0 findings closed)
      (some : (closed.leave network position token).chart.countAt (position + 1) ≠ 0)
      (loop : SweepLoop network (position + 1) rest (closed.leave network position token) later) :
      SweepLoop network position (token :: rest) findings later

namespace Findings

variable {network : Network} {start : Nat} {input : List Token} {findings : Findings}
  {position : Nat} {item : Item}

/-- **A sweep goes through the sweep loop to its end.** -/
theorem Swept.loop_sweep {rest : List Token} (swept : findings.Swept network start input position)
    (unread : input.drop position = rest) :
    SweepLoop network position rest findings (findings.sweep network position rest) := by
  induction rest generalizing findings position with
  | nil => exact .stop
  | cons token rest ih =>
    obtain ⟨read, left⟩ := getElem?_and_drop_of_drop_eq_cons unread
    have closes := swept.linked.loop_close position
    have visited := findings.visit_eq_leave network position token
    have further := ih (swept.visit read) left
    by_cases none : (findings.visit network position token).chart.countAt (position + 1) = 0
    · rw [Findings.sweep_cons_of_eq_zero none]
      rw [visited] at none ⊢
      exact .last closes none
    · rw [Findings.sweep_cons_of_ne_zero none]
      rw [visited] at none further ⊢
      exact .next closes none further

/-- Settling a position goes through the closing loop to its end, which is where it begins if there
are no items. -/
theorem Linked.loop_settle (linked : findings.Linked network start input) (last : Nat) :
    ClosingLoop network (last + 1) 0 findings (findings.settle network last) := by
  unfold settle
  by_cases none : findings.chart.countAt (last + 1) = 0
  · rw [if_pos none]
    exact .stop (Array.getElem?_eq_none (Nat.le_of_eq none))
  · rw [if_neg none]
    exact linked.loop_close (last + 1)

/-! ## Where items are -/

/-- **No position is left out.** An item has items at every position in front of it. The induction
is on the order of discovery: all steps but a scan lead to an item from one at the same position,
and a scan from one at the position in front. -/
theorem Linked.exists_has_of_le (linked : findings.Linked network start input)
    (found : findings.Has position item) {other : Nat} (before : other ≤ position) :
    ∃ another, findings.Has other another := by
  induction rank : findings.rank ⟨position, item⟩ using Nat.strongRecOn
    generalizing position item with
  | ind rank ih =>
  subst rank
  by_cases same : other = position
  · subst same
    exact ⟨item, found⟩
  obtain ⟨why, member⟩ := linked.coherent.exists_find found
  have back : ∀ source ∈ why.sources position, other ≤ source.position →
      ∃ another, findings.Has other another :=
    fun source isSource before => ih _ (linked.earlier _ _ member source isSource)
      (linked.has_source member isSource) before rfl
  cases linked.legal _ _ member with
  | seed => omega
  | epsilon => exact back _ (List.mem_cons_self ..) before
  | predict => exact back _ (List.mem_cons_self ..) before
  | complete => exact back _ (List.mem_cons_self ..) before
  | scan => exact back _ (List.mem_cons_self ..) (by simp only [Nat.add_sub_cancel]; omega)

/-- The chart of filled findings has the positions that have items. -/
theorem Linked.lt_size_iff (linked : findings.Linked network start input)
    (filled : findings.Filled) (position : Nat) :
    position < findings.chart.size ↔ ∃ item, findings.Has position item := by
  constructor
  · intro inside
    obtain ⟨behind, item, further, found⟩ := filled position inside
    exact linked.exists_has_of_le found further
  · rintro ⟨item, found⟩
    exact found.lt_size

/-- The sets of the chart of filled findings have items. -/
theorem Linked.isEmpty_eq_false (linked : findings.Linked network start input)
    (filled : findings.Filled) {set : ItemSet} (here : findings.chart.set? position = some set) :
    set.isEmpty = false := by
  have inside : position < findings.chart.size := (Array.getElem?_eq_some_iff.1 here).1
  obtain ⟨item, found⟩ := (linked.lt_size_iff filled position).1 inside
  rw [Has, Chart.itemsAt, here] at found
  cases empty : set.isEmpty with
  | false => rfl
  | true =>
    have nothing : set.elements = #[] := Array.isEmpty_iff.1 empty
    rw [Option.getD_some, ← Enumeration.mem_toList, Enumeration.toList, nothing] at found
    exact absurd found List.not_mem_nil

/-- In finished findings no call has begun behind the end of the input, since its caller is found
where it began. -/
theorem Finished.beganWithin (finished : findings.Finished network start input) :
    findings.BeganWithin input.length := by
  intro node frame here
  obtain ⟨caller, -, found, -⟩ := finished.linked.exists_caller here
  exact finished.bounded _ _ found

/-- The chart of finished findings ends behind the input at most. -/
theorem Finished.size_chart_le_length (finished : findings.Finished network start input)
    (filled : findings.Filled) : findings.chart.size ≤ input.length + 1 := by
  by_contra longer
  obtain ⟨item, found⟩ :=
    (finished.linked.lt_size_iff filled (input.length + 1)).1 (Nat.not_le.1 longer)
  have bounded := finished.bounded _ _ found
  omega

end Findings

namespace Network

/-- **Runs end, and find no more than the network and the input allow.** From a rule that exists a
run succeeds. Its sweep goes through the sweep loop and settling the position behind the end marker
through the closing loop, each to its end, which gives the findings up to the verdict. With `n`
tokens in front of the end marker the chart has at most `n + 2` positions, each with an item; there
are at most as many nodes as the empty stack and a frame for each call site and each of `n + 2`
positions; a position has at most one item for each state and each stack that begins up to it; and
there are as many items as provenances. -/
theorem recognition_bounded (network : Network) {startRule : Nat} {rule : Rule}
    (known : network.rule? startRule = some rule) (tokens : List Token) :
    ∃ recognition swept settled, network.recognition startRule tokens = .ok recognition ∧
      SweepLoop network 0 (inputOf tokens) (Findings.seeded rule tokens) swept ∧
      ClosingLoop network ((beforeEndMarker tokens).length + 1) 0 swept settled ∧
      recognition.findings =
        settled.noteVerdict recognition.accepting (beforeEndMarker tokens).length ∧
      recognition.statistics.positions ≤ (beforeEndMarker tokens).length + 2 ∧
      (∀ position set, recognition.chart.set? position = some set → set.isEmpty = false) ∧
      recognition.statistics.stackNodes ≤
        1 + network.callSites.length * ((beforeEndMarker tokens).length + 2) ∧
      (∀ position, recognition.chart.countAt position ≤
        network.stateCount * (1 + network.callSites.length * (position + 1))) ∧
      recognition.statistics.items = recognition.statistics.provenances := by
  have seeded := network.swept_seeded known tokens
  have sweeps := seeded.loop_sweep List.drop_zero
  have swept := seeded.sweep List.drop_zero (Nat.zero_le _)
  have settles : ClosingLoop network ((beforeEndMarker tokens).length + 1) 0 _
      (network.settledFrom rule tokens) := swept.linked.loop_settle (beforeEndMarker tokens).length
  obtain ⟨finished, -⟩ := network.finished_recognitionFrom known tokens
  have filled := network.filled_recognitionFrom startRule rule tokens
  have verdict := network.findings_recognitionFrom startRule rule tokens
  have ran := recognition_of_rule? known tokens
  have length := length_inputOf tokens
  generalize network.recognitionFrom startRule rule tokens = recognition at *
  have linked := finished.linked
  refine ⟨recognition, _, _, ran, sweeps, settles, verdict, ?_, ?_, ?_, linked.countAt_le,
    linked.coherent.itemCount_eq.2.symm⟩
  · have positions := finished.size_chart_le_length filled
    rwa [length] at positions
  · intro position set here
    exact linked.isEmpty_eq_false filled here
  · have nodes := linked.size_stackGraph_le finished.beganWithin
    rwa [length] at nodes

/-- The run of the sample on a seven ends with at most three positions and seven nodes, although its
rule is left recursive, cyclic and nullable. -/
theorem recognition_bounded_doubling :
    ∃ recognition swept settled, doubling.recognition 0 [7] = .ok recognition ∧
      SweepLoop doubling 0 [7, Token.endMarker] (Findings.seeded ⟨"S", 0, 1⟩ [7]) swept ∧
      ClosingLoop doubling 2 0 swept settled ∧
      recognition.findings = settled.noteVerdict recognition.accepting 1 ∧
      recognition.statistics.positions ≤ 3 ∧ recognition.statistics.stackNodes ≤ 7 ∧
      recognition.chart.countAt 2 ≤ 21 := by
  have known : doubling.rule? 0 = some ⟨"S", 0, 1⟩ := rfl
  obtain ⟨recognition, swept, settled, ran, sweeps, settles, verdict, positions, -, nodes, items,
    -⟩ := recognition_bounded doubling known [7]
  exact ⟨recognition, swept, settled, ran, sweeps, settles, verdict, positions, nodes, items 2⟩

end Network

end TransitionNetworks
