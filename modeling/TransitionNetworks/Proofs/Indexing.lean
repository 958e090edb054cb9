import Mathlib.Data.List.Induction
import TransitionNetworks.Chart.Operation
import TransitionNetworks.Proofs.Interning
import TransitionNetworks.Proofs.Run.Counts

/-!
# A chart tells its own history

The plain account of a use of a chart has no sets and no index: it is the list of the operations
performed. The chart takes an item to the set at its position, and a set lists what is inserted into
it once each, in the order of first insertion (`Enumeration.toList_ofList`). `Mirrors` says that a
chart is in the state that the account has, `Mirrors.perform` and `Mirrors.answer_eq` that every
operation keeps this and is answered out of the account, and `Mirrors.performAll` carries both along
any list of operations. A position is only ever added to at the end of its list
(`toList_prefix_performAll`), so that the list can be walked by number while it grows.

A provenance table that follows the answers of a chart has the items of the chart and no others,
each with the provenance that came with its first insertion (`Traced`). That is how a run discovers
items (`trace_discover`).
-/

namespace TransitionNetworks

namespace Enumeration

variable {α : Type} [Ord α] [Std.TransOrd α] [Std.LawfulEqOrd α]

/-- What the elements of a list make when they are inserted one after the other. -/
def ofList (xs : List α) : Enumeration α := xs.foldl (fun s x => s.insert x) ∅

/-- One element more is inserted last. -/
theorem ofList_concat (xs : List α) (x : α) : ofList (xs ++ [x]) = (ofList xs).insert x := by
  rw [ofList, List.foldl_append]
  rfl

variable [DecidableEq α]

/-- What is inserted is listed once each, in the order of first insertion. -/
theorem toList_ofList (xs : List α) : (ofList xs).toList = xs.eraseDups := by
  induction xs using List.reverseRecOn with
  | nil => rfl
  | append_singleton xs x ih =>
    rw [ofList_concat, toList_insert, eraseDups_concat]
    simp only [contains_iff_mem, ih, List.mem_eraseDups]

/-- The enumeration of a list counts the elements of the list, each once. -/
theorem size_ofList (xs : List α) : (ofList xs).size = xs.eraseDups.length := by
  rw [← length_toList, toList_ofList]

/-- The index knows what was inserted. -/
theorem contains_ofList (xs : List α) (x : α) : (ofList xs).contains x = true ↔ x ∈ xs := by
  rw [contains_iff_mem, toList_ofList, List.mem_eraseDups]

end Enumeration

/-! ## How many items a chart has -/

namespace Chart

/-- The count of items may be taken over any positions that include all that the chart reaches. -/
theorem itemCount_eq_sum_of_le {chart : Chart} {bound : Nat} (reached : chart.size ≤ bound) :
    chart.itemCount = ∑ position ∈ Finset.range bound, chart.countAt position := by
  rw [itemCount_eq_sum]
  refine Finset.sum_subset (Finset.range_subset_range.2 reached) fun position _ beyond => ?_
  have beyond : chart.size ≤ position := by simpa using beyond
  rw [countAt, itemsAt_of_size_le beyond]
  rfl

/-- An item that is new at its position counts there. -/
theorem countAt_insert {chart : Chart} {position : Nat} {item : Item}
    (fresh : ¬ chart.contains position item = true) (other : Nat) :
    (chart.insert position item).countAt other =
      chart.countAt other + if other = position then 1 else 0 := by
  rw [countAt, countAt, itemsAt_insert]
  split
  · rename_i same
    subst same
    exact (Enumeration.size_insert _ item).trans (if_neg fresh)
  · rfl

/-- Inserting an item adds one to the items if it is new at its position. -/
theorem itemCount_insert (chart : Chart) (position : Nat) (item : Item) :
    (chart.insert position item).itemCount =
      if chart.contains position item then chart.itemCount else chart.itemCount + 1 := by
  by_cases found : chart.contains position item = true
  · rw [insert_of_contains found, if_pos found]
  · -- over the positions reached afterwards only the count at this one differs
    have inside : position < max chart.size (position + 1) := by omega
    rw [if_neg found, itemCount_eq_sum, size_insert,
      chart.itemCount_eq_sum_of_le (Nat.le_max_left chart.size (position + 1))]
    simp only [countAt_insert found, Finset.sum_add_distrib, Finset.sum_ite_eq',
      Finset.mem_range, inside, if_true]

/-- An empty set at a new position adds no item. -/
@[simp] theorem itemCount_pushSet (chart : Chart) : chart.pushSet.itemCount = chart.itemCount := by
  rw [itemCount_eq_sum, chart.itemCount_eq_sum_of_le (Nat.le_succ chart.size), size_pushSet]
  simp only [countAt, itemsAt_pushSet]

end Chart

namespace ChartOperation

/-! ## The plain account -/

/-- Where an operation inserts which item. -/
def place? : ChartOperation → Option Place
  | insert position item => some ⟨position, item⟩
  | pushSet => none
  | askSet _ | askItem .. | askContains .. | askSize | askIsEmpty | askItemCount => none

/-- Where operations insert which items, in order. -/
def placesOf (performed : List ChartOperation) : List Place := performed.filterMap place?

/-- The items that operations insert at a position, in order. -/
def itemsOf (performed : List ChartOperation) (position : Nat) : List Item :=
  ((placesOf performed).filter fun place => place.position = position).map Place.item

/-- How many positions there are after an operation, if there were so many before. -/
def reach (count : Nat) : ChartOperation → Nat
  | insert position _ => if count ≤ position then position + 1 else count
  | pushSet => count + 1
  | askSet _ | askItem .. | askContains .. | askSize | askIsEmpty | askItemCount => count

/-- How many positions there are after operations. -/
def positionCount (performed : List ChartOperation) : Nat := performed.foldl reach 0

/-- The answer to an operation, told from the operations performed before it. -/
def plainAnswer (performed : List ChartOperation) : ChartOperation → ChartAnswer
  | insert position item => .news (insert position item ∉ performed)
  | pushSet => .done
  | askSet position =>
    .set (if position < positionCount performed then some (itemsOf performed position).eraseDups
      else none)
  | askItem position n => .item (itemsOf performed position).eraseDups[n]?
  | askContains position item => .truth (insert position item ∈ performed)
  | askSize => .count (positionCount performed)
  | askIsEmpty => .truth (positionCount performed = 0)
  | askItemCount => .count (placesOf performed).eraseDups.length

/-- The answers to operations, each told from all that were performed before it. -/
def plainAnswers (performed : List ChartOperation) : List ChartOperation → List ChartAnswer
  | [] => []
  | operation :: rest =>
    plainAnswer performed operation :: plainAnswers (performed ++ [operation]) rest

/-- The provenance that came with the first insertion of an item at a position. -/
def firstProvenance? (steps : List (ChartOperation × Provenance)) (position : Nat) (item : Item) :
    Option Provenance :=
  (steps.find? fun step => step.1 = insert position item).map Prod.snd

/-! ## The account after one more operation -/

variable {performed : List ChartOperation} {operation : ChartOperation}

/-- Only insertions have a place. -/
theorem place?_eq_some_iff (operation : ChartOperation) (position : Nat) (item : Item) :
    operation.place? = some ⟨position, item⟩ ↔ operation = insert position item := by
  cases operation <;> simp [place?]

/-- The places of operations are those of their insertions. -/
theorem mem_placesOf {position : Nat} {item : Item} :
    ⟨position, item⟩ ∈ placesOf performed ↔ insert position item ∈ performed := by
  simp [placesOf, List.mem_filterMap, place?_eq_some_iff]

/-- The items of operations at a position are those inserted there. -/
theorem mem_itemsOf {position : Nat} {item : Item} :
    item ∈ itemsOf performed position ↔ insert position item ∈ performed := by
  rw [← mem_placesOf, itemsOf, List.mem_map]
  constructor
  · rintro ⟨⟨there, item⟩, kept, rfl⟩
    obtain ⟨member, here⟩ := List.mem_filter.1 kept
    obtain rfl : there = position := of_decide_eq_true here
    exact member
  · intro member
    exact ⟨⟨position, item⟩, List.mem_filter.2 ⟨member, decide_eq_true rfl⟩, rfl⟩

/-- An insertion adds its place behind the others. -/
theorem placesOf_concat_insert (performed : List ChartOperation) (position : Nat) (item : Item) :
    placesOf (performed ++ [insert position item]) = placesOf performed ++ [⟨position, item⟩] := by
  rw [placesOf, List.filterMap_append]
  rfl

/-- An operation that inserts nothing adds no place. -/
theorem placesOf_concat_of_place? (other : operation.place? = none) :
    placesOf (performed ++ [operation]) = placesOf performed := by
  simp [placesOf, List.filterMap_append, other]

/-- An insertion concerns the items at its position alone. -/
theorem itemsOf_concat_insert (performed : List ChartOperation) (position other : Nat)
    (item : Item) :
    itemsOf (performed ++ [insert position item]) other =
      if other = position then itemsOf performed position ++ [item]
      else itemsOf performed other := by
  rw [itemsOf, placesOf_concat_insert, List.filter_append, List.map_append]
  by_cases same : other = position
  · subst same
    simp [itemsOf]
  · simp [itemsOf, same, Ne.symm same]

/-- An operation that inserts nothing adds no item. -/
theorem itemsOf_concat_of_place? (other : operation.place? = none) (position : Nat) :
    itemsOf (performed ++ [operation]) position = itemsOf performed position := by
  rw [itemsOf, placesOf_concat_of_place? other]
  rfl

/-- One operation more reaches on from the positions that there are. -/
theorem positionCount_concat (performed : List ChartOperation) (operation : ChartOperation) :
    positionCount (performed ++ [operation]) = operation.reach (positionCount performed) := by
  rw [positionCount, List.foldl_append]
  rfl

/-- A later insertion does not change the first one. -/
theorem firstProvenance?_concat (steps : List (ChartOperation × Provenance))
    (operation : ChartOperation) (why : Provenance) (position : Nat) (item : Item) :
    firstProvenance? (steps ++ [(operation, why)]) position item =
      (firstProvenance? steps position item).or
        (if operation = insert position item then some why else none) := by
  rw [firstProvenance?, List.find?_append, Option.map_or]
  by_cases inserts : operation = insert position item
  · simp [firstProvenance?, inserts]
  · simp [firstProvenance?, inserts]

/-- There is a first provenance of what was inserted, and of nothing else. -/
theorem isSome_firstProvenance? (steps : List (ChartOperation × Provenance)) (position : Nat)
    (item : Item) : (firstProvenance? steps position item).isSome = true ↔
      insert position item ∈ steps.map Prod.fst := by
  simp [firstProvenance?, List.find?_isSome]

end ChartOperation

open ChartOperation

namespace Chart

/-! ## A chart and its account -/

/-- A chart is in the state that the account of operations has. -/
structure Mirrors (performed : List ChartOperation) (chart : Chart) : Prop where
  /-- The sets are those that the items inserted make. -/
  itemsAt : ∀ position, chart.itemsAt position = .ofList (itemsOf performed position)
  /-- The positions are those inserted at or appended. -/
  size : chart.size = positionCount performed
  /-- The items are counted once for each position. -/
  itemCount : chart.itemCount = (Enumeration.ofList (placesOf performed)).size

namespace Mirrors

variable {performed : List ChartOperation} {chart : Chart}

/-- The first chart mirrors that nothing has been done. -/
theorem empty : Mirrors [] Chart.empty where
  itemsAt position := itemsAt_empty position
  size := rfl
  itemCount := rfl

/-- The items at a position are those inserted there, each where it was inserted first. -/
theorem toList_eq (mirrors : chart.Mirrors performed) (position : Nat) :
    (chart.itemsAt position).toList = (itemsOf performed position).eraseDups := by
  rw [mirrors.itemsAt, Enumeration.toList_ofList]

/-- The items found at a position are those inserted there. -/
theorem contains_iff (mirrors : chart.Mirrors performed) (position : Nat) (item : Item) :
    chart.contains position item = true ↔ .insert position item ∈ performed := by
  rw [Chart.contains, mirrors.itemsAt, Enumeration.contains_ofList, mem_itemsOf]

/-- Where nothing was inserted there are no items. -/
theorem itemsAt_eq_empty (mirrors : chart.Mirrors performed) {position : Nat}
    (untouched : ∀ item, .insert position item ∉ performed) : chart.itemsAt position = ∅ := by
  have none : itemsOf performed position = [] :=
    List.eq_nil_iff_forall_not_mem.2 fun item inserted => untouched item (mem_itemsOf.1 inserted)
  rw [mirrors.itemsAt, none]
  rfl

/-- The item with a number is the one with the number among those inserted, each counted once. -/
theorem item?_eq (mirrors : chart.Mirrors performed) (position n : Nat) :
    chart.item? position n = (itemsOf performed position).eraseDups[n]? := by
  rw [item?, ← Enumeration.getElem?_toList, mirrors.toList_eq]

/-- A chart has as many items as places were inserted into. -/
theorem itemCount_eq (mirrors : chart.Mirrors performed) :
    chart.itemCount = (placesOf performed).eraseDups.length := by
  rw [mirrors.itemCount, Enumeration.size_ofList]

/-- Inserting an item is what the account says, also behind the last position. -/
theorem insert (mirrors : chart.Mirrors performed) (position : Nat) (item : Item) :
    (chart.insert position item).Mirrors (performed ++ [.insert position item]) where
  itemsAt other := by
    rw [itemsAt_insert, itemsOf_concat_insert]
    split
    · rw [Enumeration.ofList_concat, mirrors.itemsAt]
    · exact mirrors.itemsAt other
  size := by
    rw [size_insert, positionCount_concat, ← mirrors.size, reach]
    split <;> omega
  itemCount := by
    have known : (Enumeration.ofList (placesOf performed)).contains ⟨position, item⟩ =
        chart.contains position item := by
      rw [Bool.eq_iff_iff, Enumeration.contains_ofList, mem_placesOf, mirrors.contains_iff]
    rw [itemCount_insert, placesOf_concat_insert, Enumeration.ofList_concat,
      Enumeration.size_insert, known, mirrors.itemCount]

/-- Appending a position is what the account says. -/
theorem pushSet (mirrors : chart.Mirrors performed) :
    chart.pushSet.Mirrors (performed ++ [.pushSet]) where
  itemsAt position := by
    rw [itemsAt_pushSet, mirrors.itemsAt, itemsOf_concat_of_place? rfl]
  size := by
    rw [size_pushSet, mirrors.size, positionCount_concat]
    rfl
  itemCount := by
    rw [itemCount_pushSet, mirrors.itemCount, placesOf_concat_of_place? rfl]

/-- A question changes the account as little as the chart. -/
theorem ask (mirrors : chart.Mirrors performed) {question : ChartOperation}
    (silent : question.place? = none) (still : ∀ count, question.reach count = count) :
    chart.Mirrors (performed ++ [question]) where
  itemsAt position := by rw [mirrors.itemsAt, itemsOf_concat_of_place? silent]
  size := by rw [mirrors.size, positionCount_concat, still]
  itemCount := by rw [mirrors.itemCount, placesOf_concat_of_place? silent]

/-- Every operation leads to the chart that the account has then. -/
theorem perform (mirrors : chart.Mirrors performed) (operation : ChartOperation) :
    (chart.perform operation).2.Mirrors (performed ++ [operation]) := by
  cases operation with
  | insert position item => exact mirrors.insert position item
  | pushSet => exact mirrors.pushSet
  | askSet position => exact mirrors.ask rfl fun _ => rfl
  | askItem position n => exact mirrors.ask rfl fun _ => rfl
  | askContains position item => exact mirrors.ask rfl fun _ => rfl
  | askSize => exact mirrors.ask rfl fun _ => rfl
  | askIsEmpty => exact mirrors.ask rfl fun _ => rfl
  | askItemCount => exact mirrors.ask rfl fun _ => rfl

/-- Whether an item is new is told by what was inserted before. -/
theorem insertNew_eq (mirrors : chart.Mirrors performed) (position : Nat) (item : Item) :
    (chart.insertNew position item).1 = decide (.insert position item ∉ performed) := by
  rw [Bool.eq_iff_iff, decide_eq_true_iff, ← mirrors.contains_iff]
  simp [insertNew]

/-- Every operation is answered out of the account. -/
theorem answer_eq (mirrors : chart.Mirrors performed) (operation : ChartOperation) :
    (chart.perform operation).1 = plainAnswer performed operation := by
  cases operation with
  | insert position item => simp only [Chart.perform, plainAnswer, mirrors.insertNew_eq]
  | pushSet => rfl
  | askSet position =>
    simp only [Chart.perform, plainAnswer, set?_eq_ite, mirrors.size]
    split
    · simp only [Option.map_some, mirrors.toList_eq]
    · rfl
  | askItem position n => simp only [Chart.perform, plainAnswer, mirrors.item?_eq]
  | askContains position item =>
    have found : chart.contains position item = decide (.insert position item ∈ performed) := by
      rw [Bool.eq_iff_iff, decide_eq_true_iff, mirrors.contains_iff]
    simp only [Chart.perform, plainAnswer, found]
  | askSize => simp only [Chart.perform, plainAnswer, mirrors.size]
  | askIsEmpty =>
    have empty : chart.isEmpty = decide (positionCount performed = 0) := by
      rw [← mirrors.size]
      rfl
    simp only [Chart.perform, plainAnswer, empty]
  | askItemCount => simp only [Chart.perform, plainAnswer, mirrors.itemCount_eq]

/-- Any operations are answered out of the account and lead to the chart that it has then. -/
theorem performAll (operations : List ChartOperation) (mirrors : chart.Mirrors performed) :
    (chart.performAll operations).1 = plainAnswers performed operations ∧
      (chart.performAll operations).2.Mirrors (performed ++ operations) := by
  induction operations generalizing chart performed with
  | nil => simpa [Chart.performAll, plainAnswers] using mirrors
  | cons operation rest ih =>
    obtain ⟨answers, later⟩ := ih (mirrors.perform operation)
    refine ⟨?_, ?_⟩
    · simp only [Chart.performAll, plainAnswers, mirrors.answer_eq operation, answers]
    · simpa [Chart.performAll] using later

/-- The account determines the chart. -/
theorem unique {other : Chart} (mirrors : chart.Mirrors performed)
    (mirrors' : other.Mirrors performed) : chart = other :=
  ext_itemsAt (mirrors.size.trans mirrors'.size.symm) fun position =>
    (mirrors.itemsAt position).trans (mirrors'.itemsAt position).symm

end Mirrors

/-! ## What stays -/

/-- An operation adds to the list of a position at its end at most. -/
theorem toList_prefix_perform (chart : Chart) (operation : ChartOperation) (position : Nat) :
    (chart.itemsAt position).toList <+:
      ((chart.perform operation).2.itemsAt position).toList := by
  cases operation with
  | insert there item => exact chart.toList_prefix_insert there position item
  | pushSet =>
    show _ <+: (chart.pushSet.itemsAt position).toList
    rw [itemsAt_pushSet]
  | askSet _ | askItem _ _ | askContains _ _ | askSize | askIsEmpty | askItemCount =>
    exact List.prefix_rfl

/-- So do any operations. -/
theorem toList_prefix_performAll (chart : Chart) (operations : List ChartOperation)
    (position : Nat) :
    (chart.itemsAt position).toList <+:
      ((chart.performAll operations).2.itemsAt position).toList := by
  induction operations generalizing chart with
  | nil => exact List.prefix_rfl
  | cons operation rest ih =>
    exact (chart.toList_prefix_perform operation position).trans (ih (chart.perform operation).2)

/-- An item keeps its number. -/
theorem item?_performAll {chart : Chart} {position n : Nat} {item : Item}
    (here : chart.item? position n = some item) (later : List ChartOperation) :
    (chart.performAll later).2.item? position n = some item := by
  rw [item?, ← Enumeration.getElem?_toList] at here ⊢
  obtain ⟨rest, same⟩ := chart.toList_prefix_performAll later position
  rw [← same, List.getElem?_append_left (List.getElem?_eq_some_iff.1 here).1, here]

/-! ## A table beside a chart -/

/-- The table is told of an insertion exactly if the item is not there yet. -/
theorem trace_insert (chart : Chart) (position : Nat) (item : Item) (why : Provenance)
    (table : ProvenanceTable) :
    chart.trace (.insert position item) why table =
      (chart.insert position item, if chart.contains position item then table
        else table.record ⟨position, item⟩ why) := by
  cases found : chart.contains position item <;> simp [trace, perform, insertNew, found]

/-- An operation that inserts nothing leaves the table alone. -/
theorem trace_of_place? {operation : ChartOperation} (other : operation.place? = none)
    (chart : Chart) (why : Provenance) (table : ProvenanceTable) :
    chart.trace operation why table = ((chart.perform operation).2, table) := by
  cases operation with
  | insert position item => cases other
  | pushSet | askSet _ | askItem _ _ | askContains _ _ | askSize | askIsEmpty | askItemCount => rfl

/-- A run discovers an item by inserting it into its chart, with its provenance beside it. -/
theorem trace_discover (findings : Findings) (position : Nat) (item : Item) (why : Provenance) :
    findings.chart.trace (.insert position item) why findings.provenance =
      ((findings.discover position item why).chart,
        (findings.discover position item why).provenance) := by
  rw [trace_insert, Findings.chart_discover]
  by_cases found : findings.chart.contains position item = true
  · rw [Findings.discover_of_contains found, if_pos found]
  · simp [Findings.discover, found]

/-- A chart and the table beside it are in the state that the account of steps has. -/
structure Traced (steps : List (ChartOperation × Provenance)) (chart : Chart)
    (table : ProvenanceTable) : Prop where
  /-- The chart mirrors the operations. -/
  mirrors : chart.Mirrors (steps.map Prod.fst)
  /-- The provenance of an item is that of its first insertion. -/
  find?_eq : ∀ position item, table.find? ⟨position, item⟩ = firstProvenance? steps position item
  /-- There is one provenance for each item. -/
  size_eq : table.size = chart.itemCount

namespace Traced

variable {steps : List (ChartOperation × Provenance)} {chart : Chart} {table : ProvenanceTable}

/-- Before the first step the chart and the table are empty. -/
theorem empty : Traced [] Chart.empty ∅ where
  mirrors := Mirrors.empty
  find?_eq _ _ := Registry.find?_empty _
  size_eq := Registry.size_empty

/-- The table has the items of the chart. -/
theorem contains_eq (traced : Traced steps chart table) (position : Nat) (item : Item) :
    table.contains ⟨position, item⟩ = chart.contains position item := by
  rw [Registry.contains_eq_isSome, traced.find?_eq, Bool.eq_iff_iff, isSome_firstProvenance?,
    traced.mirrors.contains_iff]

/-- An insertion is recorded if it is the first of its item at its position. -/
theorem insert (traced : Traced steps chart table) (position : Nat) (item : Item)
    (why : Provenance) :
    Traced (steps ++ [(.insert position item, why)]) (chart.insert position item)
      (if chart.contains position item then table
        else table.record ⟨position, item⟩ why) where
  mirrors := by
    rw [List.map_append]
    exact traced.mirrors.insert position item
  find?_eq there other := by
    rw [firstProvenance?_concat, ← traced.find?_eq]
    by_cases same : ChartOperation.insert position item = .insert there other
    · -- the item has a provenance exactly if it was inserted before, and then keeps it
      obtain ⟨rfl, rfl⟩ := ChartOperation.insert.inj same
      have recorded := traced.contains_eq position item
      rw [Registry.contains_eq_isSome] at recorded
      rw [if_pos rfl, ← recorded]
      cases found : table.find? ⟨position, item⟩ with
      | some first => simp [found]
      | none => simp [found]
    · have different : (⟨position, item⟩ : Place) ≠ ⟨there, other⟩ := by simpa using same
      rw [if_neg same, Option.or_none]
      split
      · rfl
      · exact Registry.find?_record_of_ne table why different
  size_eq := by
    rw [itemCount_insert, ← traced.size_eq, ← traced.contains_eq]
    split
    · rfl
    · rename_i fresh
      rw [Registry.size_record, if_neg fresh]

/-- Every operation keeps the table in step with the chart. -/
theorem trace (traced : Traced steps chart table) (operation : ChartOperation)
    (why : Provenance) :
    Traced (steps ++ [(operation, why)]) (chart.trace operation why table).1
      (chart.trace operation why table).2 := by
  cases silent : operation.place? with
  | some place =>
    obtain rfl := (place?_eq_some_iff operation place.position place.item).1 silent
    rw [trace_insert]
    exact traced.insert place.position place.item why
  | none =>
    rw [trace_of_place? silent]
    have mirrors := traced.mirrors.perform operation
    refine ⟨by simpa using mirrors, fun position item => ?_, ?_⟩
    · have other : operation ≠ .insert position item := by
        rintro rfl
        cases silent
      rw [firstProvenance?_concat, if_neg other, Option.or_none, traced.find?_eq]
    · rw [traced.size_eq, traced.mirrors.itemCount, mirrors.itemCount,
        placesOf_concat_of_place? silent]

/-- Any operations keep the table in step with the chart. -/
theorem traceAll (more : List (ChartOperation × Provenance)) (traced : Traced steps chart table) :
    Traced (steps ++ more) (chart.traceAll more table).1 (chart.traceAll more table).2 := by
  induction more generalizing steps chart table with
  | nil => simpa [Chart.traceAll] using traced
  | cons step rest ih => simpa [Chart.traceAll] using ih (traced.trace step.1 step.2)

end Traced

/-! ## The main result -/

/-- **A chart keeps its lists and its index in step.** Whatever is inserted at which position,
appended and asked, every answer is the one of the plain account. Afterwards the set at a position
is what the items inserted there make of an empty set, and lists each of them once, in the order of
first insertion; there are none where nothing was inserted. The index finds what is listed, and an
item is reported as new exactly if it was not inserted at its position before. Items are found by
their number in the list, under which they are found ever after. Appending a position adds one,
inserting behind the last position goes up to there, and inserting in front of it adds none; and
there are as many items as distinct places inserted at.

A provenance table that records an item when the chart reports it as new, and only then, has the
items of the chart, each with the provenance that came with its first insertion. This is how a run
discovers an item. -/
theorem performAll_inStep (operations : List ChartOperation) :
    let chart := (empty.performAll operations).2
    (empty.performAll operations).1 = plainAnswers [] operations ∧
      (∀ position, chart.itemsAt position = .ofList (itemsOf operations position) ∧
        (chart.itemsAt position).toList = (itemsOf operations position).eraseDups ∧
        ((∀ item, .insert position item ∉ operations) → chart.itemsAt position = ∅)) ∧
      (∀ position item,
        (chart.contains position item = true ↔ item ∈ (chart.itemsAt position).toList) ∧
        ((chart.itemsAt position).contains item = true ↔
          item ∈ (chart.itemsAt position).toList) ∧
        ((chart.insertNew position item).1 = true ↔ .insert position item ∉ operations) ∧
        ((chart.itemsAt position).insertNew item).1 = (chart.insertNew position item).1) ∧
      (∀ position n, chart.item? position n = (chart.itemsAt position).toList[n]? ∧
        (chart.itemsAt position).get? n = (chart.itemsAt position).toList[n]? ∧
        ∀ item, chart.item? position n = some item →
          ∀ later, (chart.performAll later).2.item? position n = some item) ∧
      (chart.size = positionCount operations ∧
        (∀ position, chart.set? position =
          if position < chart.size then some (chart.itemsAt position) else none) ∧
        chart.pushSet.size = chart.size + 1 ∧
        ∀ position item, (chart.insert position item).size =
          if chart.size < position + 1 then position + 1 else chart.size) ∧
      chart.itemCount = (placesOf operations).eraseDups.length ∧
      (∀ steps : List (ChartOperation × Provenance), steps.map Prod.fst = operations →
        let table := (empty.traceAll steps ∅).2
        (empty.traceAll steps ∅).1 = chart ∧ table.size = chart.itemCount ∧
          ∀ position item,
            table.contains ⟨position, item⟩ = chart.contains position item ∧
            table.find? ⟨position, item⟩ = firstProvenance? steps position item) ∧
      ∀ (findings : Findings) (position : Nat) (item : Item) (why : Provenance),
        findings.chart.trace (.insert position item) why findings.provenance =
          ((findings.discover position item why).chart,
            (findings.discover position item why).provenance) := by
  intro chart
  obtain ⟨answers, mirrors⟩ := Mirrors.empty.performAll operations
  change chart.Mirrors operations at mirrors
  refine ⟨answers, fun position => ?_, fun position item => ?_, fun position n => ?_, ?_,
    mirrors.itemCount_eq, fun steps same => ?_, trace_discover⟩
  · exact ⟨mirrors.itemsAt position, mirrors.toList_eq position, mirrors.itemsAt_eq_empty⟩
  · refine ⟨chart.contains_iff_mem position item, Enumeration.contains_iff_mem _, ?_, rfl⟩
    rw [mirrors.insertNew_eq, decide_eq_true_iff]
  · have numbered := (chart.itemsAt position).getElem?_toList n
    exact ⟨numbered.symm, numbered.symm, fun item here later => item?_performAll here later⟩
  · refine ⟨mirrors.size, chart.set?_eq_ite, chart.size_pushSet, fun position item => ?_⟩
    rw [size_insert]
    split <;> omega
  · subst same
    have traced := Traced.empty.traceAll steps
    have follows : (empty.traceAll steps ∅).1 = chart := traced.mirrors.unique mirrors
    rw [follows] at traced
    exact ⟨follows, traced.size_eq, fun position item =>
      ⟨traced.contains_eq position item, traced.find?_eq position item⟩⟩

/-- A chart grows up to where it is inserted at. -/
example :
    (empty.performAll [.insert 2 ⟨0, 0, 0⟩, .insert 2 ⟨0, 0, 0⟩, .askSize, .askSet 1, .askItem 2 0,
      .askContains 7 ⟨0, 0, 0⟩, .askItemCount]).1 =
      [.news true, .news false, .count 3, .set (some []), .item (some ⟨0, 0, 0⟩), .truth false,
        .count 1] := by decide +kernel

end Chart

end TransitionNetworks
