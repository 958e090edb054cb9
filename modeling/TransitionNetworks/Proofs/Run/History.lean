import TransitionNetworks.Proofs.Run.Growth

/-! # The history of a run

The history lists the finds of a run in the order of discovery. Findings are coherent
(`Findings.Coherent`) if the chart and the provenance list the same places as the history, a
position its items in the order of their finds; every operation that finds an item keeps them so
(`Findings.Coherent.discover`). The order of discovery (`Findings.rank`) never changes, and it is
what inductions over findings go by. -/

namespace TransitionNetworks

namespace Findings

/-- **Coherence.** The chart, the provenance and the history agree on what was found, and on the
order in which it was found. -/
structure Coherent (findings : Findings) : Prop where
  /-- No place is found twice. -/
  nodup : (findings.finds.map Prod.fst).Nodup
  /-- The provenance is that of the find. -/
  find?_eq_some_iff : ∀ place why,
    findings.provenance.find? place = some why ↔ (place, why) ∈ findings.finds
  /-- There is one provenance for each find. -/
  size : findings.provenance.size = findings.finds.length
  /-- A position lists its items in the order of discovery. -/
  listing : ∀ position, (findings.chart.itemsAt position).toList =
    (findings.finds.filter fun find => find.1.position = position).map fun find => find.1.item

/-- Before a run findings are coherent. -/
theorem coherent_initial : initial.Coherent where
  nodup := by simp [finds, initial]
  find?_eq_some_iff place why := by
    have absent : initial.provenance.find? place = none := Registry.find?_empty place
    rw [absent]
    simp [finds, initial]
  size := Registry.size_empty
  listing position := by
    have none : initial.chart.itemsAt position = ∅ := Chart.itemsAt_empty position
    rw [none]
    rfl

/-- A place is found exactly if the history has it. -/
theorem Coherent.has_iff {findings : Findings} (coherent : findings.Coherent) {place : Place} :
    findings.Has place.position place.item ↔ place ∈ findings.finds.map Prod.fst := by
  obtain ⟨position, item⟩ := place
  rw [Has, ← Enumeration.mem_toList, coherent.listing]
  simp only [List.mem_map, List.mem_filter, decide_eq_true_eq]
  constructor
  · rintro ⟨⟨place, why⟩, ⟨member, rfl⟩, rfl⟩
    exact ⟨(place, why), member, rfl⟩
  · rintro ⟨⟨place, why⟩, member, rfl⟩
    exact ⟨(⟨position, item⟩, why), ⟨member, rfl⟩, rfl⟩

/-- What the history has was found. -/
theorem Coherent.has_of_mem {findings : Findings} (coherent : findings.Coherent)
    {find : Place × Provenance} (member : find ∈ findings.finds) :
    findings.Has find.1.position find.1.item :=
  coherent.has_iff.2 (List.mem_map_of_mem member)

/-- A place that the chart does not contain is not in the history. -/
theorem Coherent.not_mem_of_not_contains {findings : Findings} (coherent : findings.Coherent)
    {position : Nat} {item : Item} (unknown : ¬ findings.chart.contains position item = true) :
    (⟨position, item⟩ : Place) ∉ findings.finds.map Prod.fst := by
  intro member
  have found : findings.Has position item := coherent.has_iff.2 member
  exact unknown ((findings.has_iff_contains position item).1 found)

/-- The find of a place that is found. -/
theorem Coherent.exists_find {findings : Findings} (coherent : findings.Coherent) {position : Nat}
    {item : Item} (found : findings.Has position item) :
    ∃ why, (⟨position, item⟩, why) ∈ findings.finds := by
  have listed : (⟨position, item⟩ : Place) ∈ findings.finds.map Prod.fst :=
    coherent.has_iff.1 found
  obtain ⟨⟨place, why⟩, member, rfl⟩ := List.mem_map.1 listed
  exact ⟨why, member⟩

/-- Findings stay coherent with a note that is no find. -/
theorem Coherent.note {findings : Findings} (coherent : findings.Coherent)
    {occurrence : Occurrence} (noFind : occurrence.find? = none) :
    (findings.note occurrence).Coherent where
  nodup := by
    rw [finds_note findings noFind]
    exact coherent.nodup
  find?_eq_some_iff := by
    rw [finds_note findings noFind]
    exact coherent.find?_eq_some_iff
  size := by
    rw [finds_note findings noFind]
    exact coherent.size
  listing := by
    rw [finds_note findings noFind]
    exact coherent.listing

/-- Findings stay coherent with other stacks. -/
theorem Coherent.withGraph {findings : Findings} (coherent : findings.Coherent)
    (graph : StackGraph) : ({ findings with stackGraph := graph } : Findings).Coherent :=
  ⟨coherent.nodup, coherent.find?_eq_some_iff, coherent.size, coherent.listing⟩

/-- Finding an item keeps findings coherent: it is recorded and listed everywhere, or nowhere if it
is known. -/
theorem Coherent.discover {findings : Findings} (coherent : findings.Coherent) (position : Nat)
    (item : Item) (why : Provenance) : (findings.discover position item why).Coherent := by
  by_cases known : findings.chart.contains position item = true
  · rw [discover_of_contains known]
    exact coherent
  have fresh := coherent.not_mem_of_not_contains known
  have finds := findings.finds_discover position item why
  rw [if_neg known] at finds
  have unrecorded : findings.provenance.find? ⟨position, item⟩ = none := by
    apply Option.eq_none_iff_forall_ne_some.2
    intro why recorded
    exact fresh (List.mem_map_of_mem ((coherent.find?_eq_some_iff _ _).1 recorded))
  have provenance : (findings.discover position item why).provenance =
      findings.provenance.record ⟨position, item⟩ why := by
    simp [Findings.discover, known]
  refine ⟨?_, ?_, ?_, ?_⟩
  · -- the new place is not one of the old
    rw [finds, List.map_append, List.nodup_append]
    refine ⟨coherent.nodup, by simp, ?_⟩
    intro place member other last
    rw [List.map_singleton, List.mem_singleton] at last
    subst last
    rintro rfl
    exact fresh member
  · -- recording concerns the new place alone, which had no provenance
    intro place other
    rw [finds, provenance, List.mem_append, List.mem_singleton, ← coherent.find?_eq_some_iff]
    by_cases same : (⟨position, item⟩ : Place) = place
    · subst same
      simp [unrecorded, eq_comm]
    · rw [Registry.find?_record_of_ne _ _ same]
      simp [Ne.symm same]
  · have absent : findings.provenance.contains ⟨position, item⟩ = false := by
      simp [Registry.contains_eq_isSome, unrecorded]
    rw [finds, provenance, Registry.size_record, absent, coherent.size]
    simp
  · -- the new item comes last at its position, and the other positions keep their listing
    intro other
    rw [finds, itemsAt_discover, List.filter_append, List.map_append, ← coherent.listing]
    by_cases same : other = position
    · subst same
      have absent : ¬ (findings.chart.itemsAt other).contains item = true := known
      simp [Enumeration.toList_insert, absent]
    · simp [same, Ne.symm same]

/-- The rank of a place in the order of discovery. -/
def rank (findings : Findings) (place : Place) : Nat :=
  (findings.finds.map Prod.fst).idxOf place

/-- A place found has a rank below the number of finds. -/
theorem rank_lt_iff (findings : Findings) (place : Place) :
    findings.rank place < findings.finds.length ↔ place ∈ findings.finds.map Prod.fst := by
  have length : (findings.finds.map Prod.fst).length = findings.finds.length :=
    List.length_map _
  rw [← length]
  exact List.idxOf_lt_length_iff

/-- The rank of a place found never changes. -/
theorem Extends.rank_eq {findings later : Findings} (grown : findings.Extends later)
    {place : Place} (member : place ∈ findings.finds.map Prod.fst) :
    later.rank place = findings.rank place := by
  obtain ⟨rest, same⟩ := grown.finds
  rw [rank, rank, ← same, List.map_append, List.idxOf_append, if_pos member]

end Findings

end TransitionNetworks
