import TransitionNetworks.Proofs.Run.Stages
import Mathlib.Algebra.BigOperators.Group.Finset.Basic
import Mathlib.Algebra.BigOperators.Group.Finset.Piecewise
import Mathlib.Algebra.Order.BigOperators.Group.Finset

/-! # How much is listed

The statistics of a run count what its chart lists, position by position (`Chart.itemCount_eq_sum`),
which is as much as its history has found and its provenance has recorded
(`Findings.Coherent.itemCount_eq`). The chart of a run reaches no further than its items
(`Findings.Filled`), so how many positions it has is determined by the items too. -/

namespace TransitionNetworks

/-- A chart has as many items as its positions have together. -/
theorem Chart.itemCount_eq_sum (chart : Chart) :
    chart.itemCount = ∑ position ∈ Finset.range chart.size, chart.countAt position := by
  obtain ⟨sets⟩ := chart
  have general : ∀ sets : List ItemSet, (sets.map Enumeration.size).sum =
      ∑ position ∈ Finset.range sets.length, (sets[position]?.getD ∅).size := by
    intro sets
    induction sets with
    | nil => rfl
    | cons first rest ih =>
      rw [List.length_cons, Finset.sum_range_succ']
      simp [ih, Nat.add_comm]
  have folded : (Chart.mk sets).itemCount = (sets.toList.map Enumeration.size).sum := by
    rw [itemCount, ← Array.foldl_toList, List.sum_eq_foldl, List.foldl_map]
  rw [folded, general]
  simp [size, countAt, itemsAt, set?]

namespace Findings

variable {network : Network} {start : Nat} {input : List Token} {findings later : Findings}

/-- An item is found only at positions that the chart has. -/
theorem Has.lt_size {position : Nat} {item : Item} (found : findings.Has position item) :
    position < findings.chart.size :=
  Chart.lt_size_of_contains ((findings.has_iff_contains position item).1 found)

/-- **As many items are listed as were found,** and as many have a provenance. -/
theorem Coherent.itemCount_eq (coherent : findings.Coherent) :
    findings.chart.itemCount = findings.finds.length ∧
      findings.provenance.size = findings.chart.itemCount := by
  -- a position lists the finds there, and every find is at some position of the chart
  have count : ∀ position, findings.chart.countAt position =
      findings.finds.countP fun find => find.1.position = position := by
    intro position
    rw [Chart.countAt, ← Enumeration.length_toList, coherent.listing, List.length_map,
      List.countP_eq_length_filter]
  have inside : ∀ find ∈ findings.finds, find.1.position < findings.chart.size := by
    intro find member
    exact (coherent.has_of_mem member).lt_size
  have total : ∀ (finds : List (Place × Provenance)) (size : Nat),
      (∀ find ∈ finds, find.1.position < size) →
      ∑ position ∈ Finset.range size, (finds.countP fun find => find.1.position = position) =
        finds.length := by
    intro finds size
    induction finds with
    | nil => simp
    | cons find rest ih =>
      intro inside
      obtain ⟨here, others⟩ := List.forall_mem_cons.1 inside
      simp [List.countP_cons, Finset.sum_add_distrib, ih others, here]
  have items : findings.chart.itemCount = findings.finds.length := by
    rw [Chart.itemCount_eq_sum]
    simp only [count]
    exact total findings.finds findings.chart.size inside
  exact ⟨items, coherent.size.trans items.symm⟩

/-! ## How far a chart reaches -/

/-- **Filled findings.** The chart ends with a position that has an item. -/
def Filled (findings : Findings) : Prop :=
  ∀ position, position < findings.chart.size →
    ∃ behind item, position ≤ behind ∧ findings.Has behind item

/-- Findings with the same chart are filled alike. -/
theorem Filled.of_chart_eq (filled : findings.Filled) (same : later.chart = findings.chart) :
    later.Filled := by
  unfold Filled Has
  rw [same]
  exact filled

/-- Findings stay filled when an item is found. -/
theorem Filled.discover (filled : findings.Filled) (position : Nat) (item : Item)
    (why : Provenance) : (findings.discover position item why).Filled := by
  intro other before
  rw [chart_discover, Chart.size_insert] at before
  by_cases old : other < findings.chart.size
  · obtain ⟨behind, another, further, found⟩ := filled other old
    exact ⟨behind, another, further, (findings.extends_discover _ _ _).has found⟩
  · -- the chart reaches this far only for the item found
    have further : other ≤ position := by omega
    exact ⟨position, item, further, (has_discover _ _ _ _ _ _).2 (Or.inr ⟨rfl, rfl⟩)⟩

/-- Every step of a run keeps findings filled. -/
theorem RunStep.filled (step : RunStep network input findings later) (filled : findings.Filled) :
    later.Filled := by
  cases step with
  | note => exact filled
  | scanning _ step =>
    cases step with
    | scan => exact filled.discover _ _ _
  | closing step =>
    exact step.preserves Filled (fun _ _ _ filled => filled.discover _ _ _)
      (fun _ _ filled => filled.of_chart_eq rfl) (fun _ _ _ _ filled => filled.of_chart_eq rfl)
      filled

/-- Charts that end with an item have as many positions if they have items at the same ones. -/
theorem Filled.size_le (filled : findings.Filled)
    (has : ∀ position item, findings.Has position item → ∃ another, later.Has position another) :
    findings.chart.size ≤ later.chart.size := by
  by_contra longer
  obtain ⟨behind, item, further, found⟩ := filled later.chart.size (Nat.not_le.1 longer)
  obtain ⟨another, found⟩ := has behind item found
  have inside := Has.lt_size found
  omega

end Findings

/-- **The findings of a run are filled.** -/
theorem Network.filled_recognitionFrom (network : Network) (startRule : Nat) (rule : Rule)
    (tokens : List Token) : (network.recognitionFrom startRule rule tokens).findings.Filled := by
  have nothing : (Findings.initial.noteIgnored tokens
      (beforeEndMarker tokens).length).chart = ∅ := by
    unfold Findings.noteIgnored
    dsimp only
    split <;> rfl
  have empty : (Findings.initial.noteIgnored tokens (beforeEndMarker tokens).length).Filled := by
    intro position before
    rw [nothing] at before
    exact absurd before (Nat.not_lt_zero position)
  exact ((network.passage_stages startRule rule tokens).invariant
    (fun _ _ step => Findings.RunStep.filled step) (empty.discover _ _ _)).2

/-- **What a run comes to.** From a rule that exists a run succeeds, with findings that are finished
and filled, and accepts where they say. -/
theorem Network.exists_recognition (network : Network) {startRule : Nat} {rule : Rule}
    (known : network.rule? startRule = some rule) (tokens : List Token) :
    ∃ recognition, network.recognition startRule tokens = .ok recognition ∧
      recognition.findings.Finished network rule.start (inputOf tokens) ∧
      recognition.findings.Filled ∧
      recognition.accepting = recognition.findings.acceptance? ⟨rule.stop, 0, emptyStack⟩
        (beforeEndMarker tokens).length := by
  obtain ⟨finished, accepting⟩ := network.finished_recognitionFrom known tokens
  exact ⟨_, recognition_of_rule? known tokens, finished,
    network.filled_recognitionFrom startRule rule tokens, accepting⟩

end TransitionNetworks
