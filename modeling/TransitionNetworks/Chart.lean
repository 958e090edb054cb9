import TransitionNetworks.Enumeration
import TransitionNetworks.Item

/-!
# Charts

A chart has a set of items for each position up to some last one. The sets list their items in the
order of discovery. Inserting an item at a position behind the last one appends empty sets up to
there.
-/

namespace TransitionNetworks

/-- The items found at a position, in the order of discovery. -/
abbrev ItemSet : Type := Enumeration Item

/-- A set of items for each position. -/
structure Chart where
  /-- The sets, each at its position. -/
  sets : Array ItemSet

namespace Chart

/-- The chart without positions. -/
def empty : Chart := ⟨#[]⟩

instance : EmptyCollection Chart := ⟨empty⟩

/-- How many positions there are. -/
def size (chart : Chart) : Nat := chart.sets.size

/-- Whether there are no positions. -/
def isEmpty (chart : Chart) : Bool := chart.sets.isEmpty

/-- The set at a position of the chart. -/
def set? (chart : Chart) (position : Nat) : Option ItemSet := chart.sets[position]?

/-- The items at a position, none if the chart does not reach it. -/
def itemsAt (chart : Chart) (position : Nat) : ItemSet := (chart.set? position).getD ∅

/-- The item discovered as number `n` at a position. -/
def item? (chart : Chart) (position : Nat) (n : Nat) : Option Item :=
  (chart.itemsAt position).get? n

/-- Whether an item was found at a position. -/
def contains (chart : Chart) (position : Nat) (item : Item) : Bool :=
  (chart.itemsAt position).contains item

/-- How many items were found at a position. -/
def countAt (chart : Chart) (position : Nat) : Nat := (chart.itemsAt position).size

/-- How many items were found. -/
def itemCount (chart : Chart) : Nat := chart.sets.foldl (fun count set => count + set.size) 0

/-- Append a position without items. -/
def pushSet : Chart → Chart
  | ⟨sets⟩ => ⟨sets.push ∅⟩

/-- The sets, with empty ones appended up to a position. -/
def extend (position : Nat) (sets : Array ItemSet) : Array ItemSet :=
  if position < sets.size then sets else sets ++ Array.replicate (position + 1 - sets.size) ∅

/-- Add an item to the set at a position. -/
def insert (position : Nat) (item : Item) : Chart → Chart
  | ⟨sets⟩ => ⟨(extend position sets).modify position (Enumeration.insert item)⟩

/-- Add an item to the set at a position and tell whether it is new there. -/
def insertNew (position : Nat) (item : Item) (chart : Chart) : Bool × Chart :=
  (!chart.contains position item, chart.insert position item)

/-- The empty chart has no items. -/
@[simp] theorem itemsAt_empty (position : Nat) : empty.itemsAt position = ∅ := by
  simp [itemsAt, set?, empty]

/-- The chart has a set exactly at the positions in front of its size. -/
theorem set?_eq_ite (chart : Chart) (position : Nat) :
    chart.set? position =
      if position < chart.size then some (chart.itemsAt position) else none := by
  obtain ⟨sets⟩ := chart
  by_cases inside : position < sets.size
  · simp [set?, itemsAt, size, inside]
  · simp [set?, size, inside]

/-- Positions behind the last one have no items, so appending empty sets changes no items. -/
@[simp] theorem itemsAt_extend (position other : Nat) (sets : Array ItemSet) :
    (Chart.mk (extend position sets)).itemsAt other = (Chart.mk sets).itemsAt other := by
  unfold extend itemsAt set?
  split
  · rfl
  · by_cases known : other < sets.size
    · simp [Array.getElem?_append, known]
    · simp only [Array.getElem?_append, known, if_false, Array.getElem?_replicate]
      have absent : sets[other]? = none := by simp; omega
      rw [absent]
      split <;> rfl

/-- A chart extended to a position has a set there. -/
theorem lt_size_extend (position : Nat) (sets : Array ItemSet) :
    position < (extend position sets).size := by
  unfold extend
  split
  · assumption
  · simp only [Array.size_append, Array.size_replicate]
    omega

/-- Inserting an item concerns the set at its position alone. -/
theorem itemsAt_insert (chart : Chart) (position other : Nat) (item : Item) :
    (chart.insert position item).itemsAt other =
      if other = position then (chart.itemsAt position).insert item else chart.itemsAt other := by
  obtain ⟨sets⟩ := chart
  rw [← itemsAt_extend position other sets, ← itemsAt_extend position position sets]
  unfold insert itemsAt set?
  rw [Array.getElem?_modify]
  by_cases same : position = other
  · subst same
    have known := lt_size_extend position sets
    simp [known]
  · simp [same, Ne.symm same]

/-- Inserting an item keeps the listing of every position as the beginning of the new one. -/
theorem toList_prefix_insert (chart : Chart) (position other : Nat) (item : Item) :
    (chart.itemsAt other).toList <+: ((chart.insert position item).itemsAt other).toList := by
  rw [itemsAt_insert]
  split
  · rename_i same
    rw [same]
    exact Enumeration.toList_prefix_insert _ item
  · exact List.prefix_rfl

/-- Inserting an item makes the chart reach its position. -/
theorem size_insert (chart : Chart) (position : Nat) (item : Item) :
    (chart.insert position item).size = max chart.size (position + 1) := by
  obtain ⟨sets⟩ := chart
  unfold insert size extend
  rw [Array.size_modify]
  split
  · show sets.size = max sets.size (position + 1)
    omega
  · show (sets ++ Array.replicate (position + 1 - sets.size) ∅).size =
      max sets.size (position + 1)
    simp only [Array.size_append, Array.size_replicate]
    omega

/-- An empty set is one position more. -/
@[simp] theorem size_pushSet (chart : Chart) : chart.pushSet.size = chart.size + 1 := by
  simp [pushSet, size]

/-- An empty set at a new position leaves the items of all positions alone. -/
@[simp] theorem itemsAt_pushSet (chart : Chart) (position : Nat) :
    chart.pushSet.itemsAt position = chart.itemsAt position := by
  obtain ⟨sets⟩ := chart
  unfold pushSet itemsAt set?
  rw [Array.getElem?_push]
  split
  · rename_i last
    subst last
    simp
  · rfl

/-- A chart has no items at positions that it does not reach. -/
theorem itemsAt_of_size_le {chart : Chart} {position : Nat} (beyond : chart.size ≤ position) :
    chart.itemsAt position = ∅ := by
  have absent : chart.set? position = none := Array.getElem?_eq_none beyond
  rw [itemsAt, absent, Option.getD_none]

/-- Charts that reach as far and have the same items at every position are equal. -/
theorem ext_itemsAt {chart other : Chart} (size : chart.size = other.size)
    (items : ∀ position, chart.itemsAt position = other.itemsAt position) : chart = other := by
  have sets : chart.sets = other.sets := by
    refine Array.ext_getElem? fun position => ?_
    show chart.set? position = other.set? position
    rw [set?_eq_ite, set?_eq_ite, size, items]
  obtain ⟨sets'⟩ := chart
  exact congrArg Chart.mk sets

/-- An item is found at a position exactly if the set there lists it. -/
theorem contains_iff_mem (chart : Chart) (position : Nat) (item : Item) :
    chart.contains position item = true ↔ item ∈ (chart.itemsAt position).toList :=
  Enumeration.contains_iff_mem _

/-- An item is found only at positions that the chart reaches. -/
theorem lt_size_of_contains {chart : Chart} {position : Nat} {item : Item}
    (found : chart.contains position item = true) : position < chart.size := by
  refine Nat.lt_of_not_le fun beyond => ?_
  rw [contains_iff_mem, itemsAt_of_size_le beyond] at found
  exact Enumeration.not_mem_empty item found

/-- Inserting an item that is found already changes nothing. -/
theorem insert_of_contains {chart : Chart} {position : Nat} {item : Item}
    (found : chart.contains position item = true) : chart.insert position item = chart := by
  have reached := lt_size_of_contains found
  refine ext_itemsAt ?_ fun other => ?_
  · rw [size_insert]
    omega
  · rw [itemsAt_insert]
    split
    · rename_i same
      rw [same]
      exact Enumeration.insert_of_contains found
    · rfl

end Chart

end TransitionNetworks
