import Std.Data.ExtTreeMap

/-!
# Registries

A `Registry κ ν` keeps, for each key, the first value that was recorded under it. Recording gives a
value to a key that has none (`find?_record_self`) and changes nothing under any other key
(`find?_record_of_ne`), and the registry counts its keys (`size_record`). Its entries are listed in
the order of the keys.
-/

namespace TransitionNetworks

universe u v

/-- A value for each of finitely many keys, where the first value recorded under a key stays. -/
structure Registry (κ : Type u) (ν : Type v) [Ord κ] [Std.TransOrd κ] [Std.LawfulEqOrd κ] where
  /-- The values under their keys. -/
  entries : Std.ExtTreeMap κ ν

namespace Registry

variable {κ : Type u} {ν : Type v} [Ord κ] [Std.TransOrd κ] [Std.LawfulEqOrd κ]

/-- The registry without keys. -/
def empty : Registry κ ν := ⟨∅⟩

instance : EmptyCollection (Registry κ ν) := ⟨empty⟩

/-- The value under a key. -/
def find? (registry : Registry κ ν) (key : κ) : Option ν := registry.entries[key]?

/-- Whether there is a value under a key. -/
def contains (registry : Registry κ ν) (key : κ) : Bool := registry.entries.contains key

/-- How many keys have a value. -/
def size (registry : Registry κ ν) : Nat := registry.entries.size

/-- Whether no key has a value. -/
def isEmpty (registry : Registry κ ν) : Bool := registry.entries.isEmpty

/-- Record a value under a key that has none. -/
def record (key : κ) (value : ν) (registry : Registry κ ν) : Registry κ ν :=
  ⟨registry.entries.insertIfNew key value⟩

/-- Record a value under a key and tell whether the key had none. -/
def recordNew (key : κ) (value : ν) (registry : Registry κ ν) : Bool × Registry κ ν :=
  (!registry.contains key, registry.record key value)

/-- The keys in increasing order, each with its value. -/
def toList (registry : Registry κ ν) : List (κ × ν) := registry.entries.toList

/-- Nothing is found in the empty registry. -/
@[simp] theorem find?_empty (key : κ) : (empty : Registry κ ν).find? key = none := by
  simp [find?, empty]

/-- The empty registry has no entries. -/
@[simp] theorem size_empty : (empty : Registry κ ν).size = 0 := by
  simp [size, empty]

/-- A key is present if there is a value under it. -/
theorem contains_eq_isSome (registry : Registry κ ν) (key : κ) :
    registry.contains key = (registry.find? key).isSome :=
  Std.ExtTreeMap.contains_eq_isSome_getElem?

/-- After recording a key has its old value, and the new one if there was none. -/
@[simp] theorem find?_record_self (registry : Registry κ ν) (key : κ) (value : ν) :
    (registry.record key value).find? key = some ((registry.find? key).getD value) := by
  unfold find? record
  rw [Std.ExtTreeMap.getElem?_insertIfNew]
  cases found : registry.entries[key]? <;>
    simp [← Std.ExtTreeMap.contains_iff_mem, Std.ExtTreeMap.contains_eq_isSome_getElem?, found]

/-- Recording changes no value under another key. -/
theorem find?_record_of_ne (registry : Registry κ ν) {key other : κ} (value : ν)
    (different : key ≠ other) :
    (registry.record key value).find? other = registry.find? other := by
  unfold find? record
  rw [Std.ExtTreeMap.getElem?_insertIfNew]
  simp [different]

/-- Recording adds one key if it had no value. -/
theorem size_record (registry : Registry κ ν) (key : κ) (value : ν) :
    (registry.record key value).size =
      if registry.contains key then registry.size else registry.size + 1 := by
  unfold size record contains
  rw [Std.ExtTreeMap.size_insertIfNew]
  simp [Std.ExtTreeMap.contains_iff_mem]

/-- Registries with the same values are equal. -/
theorem ext_find? {first second : Registry κ ν}
    (same : ∀ key, first.find? key = second.find? key) : first = second := by
  obtain ⟨entries⟩ := first
  obtain ⟨entries'⟩ := second
  have equal : entries = entries' := Std.ExtTreeMap.ext_getElem? same
  subst equal
  rfl

end Registry

end TransitionNetworks
