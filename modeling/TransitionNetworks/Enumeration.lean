import Std.Data.ExtTreeMap

/-!
# Enumerations

An `Enumeration α` lists distinct elements in the order in which they were first inserted, and
knows the place of each of them. Inserting an element that is already listed changes nothing, so a
place once taken is never given to another element. The listing `toList` is the view through which
the operations are described: `toList_insert` says what insertion does to it, `contains_iff_mem` and
`indexOf?_eq_some_iff` tie the index to it, and `toList_nodup` says that nothing is listed twice.
-/

namespace TransitionNetworks

universe u

/-- Distinct elements in the order of their first insertion, with the place of each. -/
structure Enumeration (α : Type u) [Ord α] [Std.TransOrd α] [Std.LawfulEqOrd α] where
  /-- The elements, each once, first inserted first. -/
  elements : Array α
  /-- The place of each element. -/
  places : Std.ExtTreeMap α Nat
  /-- The places are those of the listing. -/
  places_eq_some_iff : ∀ (x : α) (i : Nat), places[x]? = some i ↔ elements[i]? = some x

namespace Enumeration

variable {α : Type u} [Ord α] [Std.TransOrd α] [Std.LawfulEqOrd α]

/-- The enumeration without elements. -/
def empty : Enumeration α where
  elements := #[]
  places := ∅
  places_eq_some_iff := by simp

instance : EmptyCollection (Enumeration α) := ⟨empty⟩

instance : Inhabited (Enumeration α) := ⟨empty⟩

/-- The elements in order of insertion. -/
def toList (s : Enumeration α) : List α := s.elements.toList

/-- How many elements are listed. -/
def size (s : Enumeration α) : Nat := s.elements.size

/-- The element at place `n`. -/
def get? (s : Enumeration α) (n : Nat) : Option α := s.elements[n]?

/-- The place of an element. -/
def indexOf? (s : Enumeration α) (x : α) : Option Nat := s.places[x]?

/-- Whether an element is listed. -/
def contains (s : Enumeration α) (x : α) : Bool := s.places.contains x

/-- Whether nothing is listed. -/
def isEmpty (s : Enumeration α) : Bool := s.elements.isEmpty

/-- Appending an element without a place gives it the next place and moves no other. -/
theorem places_insert_eq_some_iff (s : Enumeration α) {x : α} (fresh : s.places[x]? = none)
    (y : α) (i : Nat) :
    (s.places.insert x s.elements.size)[y]? = some i ↔ (s.elements.push x)[i]? = some y := by
  -- an element without a place is not listed
  have absent : s.elements[i]? ≠ some x := by
    intro listed
    rw [← s.places_eq_some_iff, fresh] at listed
    exact absurd listed (by simp)
  have old := s.places_eq_some_iff y i
  rw [Std.ExtTreeMap.getElem?_insert, Array.getElem?_push]
  by_cases same : x = y
  · subst same
    by_cases last : i = s.elements.size
    · simp [last]
    · simp [last, absent, Ne.symm last]
  · by_cases last : i = s.elements.size
    · subst last
      have : s.elements[s.elements.size]? = none := by simp
      rw [this] at old
      simp [same, old]
    · simp [last, same, old]

/-- List an element after all others, unless it is listed already. -/
def insert (x : α) (s : Enumeration α) : Enumeration α :=
  match fresh : s.places[x]? with
  | some _ => s
  | none =>
    let place := s.elements.size
    { elements := s.elements.push x
      places := s.places.insert x place
      places_eq_some_iff := s.places_insert_eq_some_iff fresh }

/-- Insert an element and tell whether it was new. -/
def insertNew (x : α) (s : Enumeration α) : Bool × Enumeration α :=
  (!s.contains x, s.insert x)

@[simp] theorem toList_empty : (empty : Enumeration α).toList = [] := rfl

@[simp] theorem length_toList (s : Enumeration α) : s.toList.length = s.size := rfl

/-- An element has the same number in the list. -/
@[simp] theorem getElem?_toList (s : Enumeration α) (n : Nat) : s.toList[n]? = s.get? n := by
  simp [toList, get?]

/-- The place of an element is where the listing has it. -/
theorem indexOf?_eq_some_iff (s : Enumeration α) {x : α} {i : Nat} :
    s.indexOf? x = some i ↔ s.get? i = some x :=
  s.places_eq_some_iff x i

/-- Membership in the index is membership in the listing. -/
theorem contains_iff_mem (s : Enumeration α) {x : α} : s.contains x = true ↔ x ∈ s.toList := by
  rw [contains, Std.ExtTreeMap.contains_eq_isSome_getElem?, Option.isSome_iff_exists,
    List.mem_iff_getElem?]
  simp only [s.places_eq_some_iff, toList, Array.getElem?_toList]

/-- An element is listed if it has a place. -/
theorem contains_eq_isSome_indexOf? (s : Enumeration α) (x : α) :
    s.contains x = (s.indexOf? x).isSome :=
  Std.ExtTreeMap.contains_eq_isSome_getElem?

/-- Two enumerations with the same listing are equal. -/
theorem ext_toList {s t : Enumeration α} (same : s.toList = t.toList) : s = t := by
  obtain ⟨elements, places, inverse⟩ := s
  obtain ⟨elements', places', inverse'⟩ := t
  have listed : elements = elements' := Array.toList_inj.1 same
  subst listed
  have indexed : places = places' := by
    refine Std.ExtTreeMap.ext_getElem? fun x => Option.ext fun i => ?_
    rw [inverse, inverse']
  subst indexed
  rfl

/-- Nothing is listed twice. -/
theorem toList_nodup (s : Enumeration α) : s.toList.Nodup := by
  refine List.pairwise_iff_getElem.2 fun i j iBound jBound before same => ?_
  have atI : s.get? i = some s.toList[i] := by
    rw [← getElem?_toList, List.getElem?_eq_getElem iBound]
  have atJ : s.get? j = some s.toList[i] := by
    rw [← getElem?_toList, List.getElem?_eq_getElem jBound, same]
  -- both places are the one that the index has
  rw [← indexOf?_eq_some_iff] at atI atJ
  have equal : i = j := by simpa [atI] using atJ
  omega

/-- Insertion appends an element that is not listed and leaves the listing alone otherwise. -/
theorem toList_insert (s : Enumeration α) (x : α) :
    (s.insert x).toList = if s.contains x then s.toList else s.toList ++ [x] := by
  rw [contains, Std.ExtTreeMap.contains_eq_isSome_getElem?]
  unfold insert
  split
  · rename_i found
    simp [found]
  · rename_i fresh
    simp [fresh, toList]

/-- Inserting an element that is listed changes nothing. -/
theorem insert_of_contains {s : Enumeration α} {x : α} (listed : s.contains x = true) :
    s.insert x = s :=
  ext_toList (by rw [toList_insert, if_pos listed])

/-- Insertion adds one element if it is not listed. -/
theorem size_insert (s : Enumeration α) (x : α) :
    (s.insert x).size = if s.contains x then s.size else s.size + 1 := by
  rw [← length_toList, toList_insert]
  split <;> simp

/-- After an insertion exactly the old elements and the new one are listed. -/
theorem contains_insert (s : Enumeration α) {x y : α} :
    (s.insert x).contains y = true ↔ y = x ∨ s.contains y = true := by
  rw [contains_iff_mem, toList_insert]
  split
  · rename_i listed
    rw [contains_iff_mem] at listed
    rw [contains_iff_mem]
    exact ⟨Or.inr, fun either => either.elim (fun same => same ▸ listed) id⟩
  · rw [contains_iff_mem]
    simp [or_comm]

instance : Membership α (Enumeration α) := ⟨fun s x => x ∈ s.toList⟩

@[simp] theorem mem_toList {s : Enumeration α} {x : α} : x ∈ s.toList ↔ x ∈ s := Iff.rfl

/-- An enumeration has an element exactly if it is listed. -/
theorem mem_iff_contains {s : Enumeration α} {x : α} : x ∈ s ↔ s.contains x = true :=
  s.contains_iff_mem.symm

@[simp] theorem not_mem_empty (x : α) : x ∉ (∅ : Enumeration α) := List.not_mem_nil

/-- Inserting makes one element a member and keeps the others. -/
@[simp] theorem mem_insert {s : Enumeration α} {x y : α} :
    y ∈ s.insert x ↔ y = x ∨ y ∈ s := by
  rw [mem_iff_contains, mem_iff_contains]
  exact s.contains_insert

/-- An enumeration has an element exactly if some place has it. -/
theorem mem_iff_exists_get? {s : Enumeration α} {x : α} : x ∈ s ↔ ∃ n, s.get? n = some x := by
  rw [← mem_toList, List.mem_iff_getElem?]
  simp only [getElem?_toList]

/-- Insertion keeps the listing as the beginning of the new one. -/
theorem toList_prefix_insert (s : Enumeration α) (x : α) : s.toList <+: (s.insert x).toList := by
  rw [toList_insert]
  split
  · exact List.prefix_rfl
  · exact List.prefix_append _ _

/-- A new element gets the next place and the others keep theirs. -/
theorem get?_insert_of_not_mem {s : Enumeration α} {x : α} (fresh : x ∉ s) (n : Nat) :
    (s.insert x).get? n = if n = s.size then some x else s.get? n := by
  have absent : ¬ s.contains x = true := fun listed => fresh (mem_iff_contains.2 listed)
  rw [← getElem?_toList, ← getElem?_toList, toList_insert, if_neg absent, List.getElem?_append]
  split
  · rename_i old
    have old : n < s.size := old
    rw [if_neg (by omega)]
  · rename_i notOld
    have notOld : ¬ n < s.size := notOld
    have ending : s.toList[n]? = none := by
      rw [List.getElem?_eq_none_iff, length_toList]
      omega
    rw [length_toList, ending]
    by_cases last : n = s.size
    · simp [last]
    · have behind : n - s.size ≠ 0 := by omega
      simp [behind, last]

end Enumeration

end TransitionNetworks
