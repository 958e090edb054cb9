import TransitionNetworks.Proofs.Grammar.CallSites

/-! # When a grammar resolves

Resolving a grammar fails for the first name that is defined again, and without such a name for the
first call in reading order that names no rule (`Grammar.fault?_resolve`). Mapping a list fails for
the first element for which the function fails (`fault?_mapM`), so that going through productions,
alternatives and steps comes down to going through the calls in reading order. -/

namespace TransitionNetworks

universe u

/-- The fault for which a computation fails. -/
def fault? {ε α : Type u} : Except ε α → Option ε
  | .error fault => some fault
  | .ok _ => none

/-- A computation has the fault with which it fails. -/
theorem fault?_eq_some_iff {ε α : Type u} {result : Except ε α} {fault : ε} :
    fault? result = some fault ↔ result = .error fault := by
  cases result <;> simp [fault?]

/-- A computation without a fault has a value. -/
theorem fault?_eq_none_iff {ε α : Type u} {result : Except ε α} :
    fault? result = none ↔ ∃ value, result = .ok value := by
  cases result <;> simp [fault?]

/-- What is done with the value leaves the fault alone. -/
@[simp] theorem fault?_map {ε α β : Type u} (f : α → β) (result : Except ε α) :
    fault? (result.map f) = fault? result := by
  cases result <;> rfl

/-- **Mapping a list fails for the first element that fails.** -/
theorem fault?_mapM {ε α β : Type u} (f : α → Except ε β) (list : List α) :
    fault? (list.mapM f) = list.findSome? fun x => fault? (f x) := by
  induction list with
  | nil => rfl
  | cons x rest ih =>
    rw [List.mapM_cons, List.findSome?_cons]
    cases first : f x with
    | error fault => rfl
    | ok y =>
      rw [← ih]
      cases rest.mapM f <;> rfl

/-- Replacing the rule of a step fails if the step calls a rule that cannot be replaced. -/
theorem Step.fault?_traverse {ρ σ ε : Type u} (f : ρ → Except ε σ) (step : Step ρ) :
    fault? (step.traverse f) = step.callee?.bind fun rule => fault? (f rule) := by
  cases step with
  | consume matcher => rfl
  | call rule => exact fault?_map _ _
  | epsilon kind => rfl

/-- What is found first in lists in a row is what is found first in one of them. -/
theorem findSome?_flatten {α β : Type u} (f : α → Option β) (lists : List (List α)) :
    lists.flatten.findSome? f = lists.findSome? fun list => list.findSome? f := by
  rw [← List.head?_filterMap, List.filterMap_flatten, List.head?_flatten, List.findSome?_map]
  exact congrArg (lists.findSome? ·) (funext fun _ => List.head?_filterMap)

/-- Replacing rules in productions fails for the first call of a rule that cannot be replaced. -/
theorem fault?_mapM_traverse {ρ σ ε : Type u} (f : ρ → Except ε σ)
    (productions : List (Production ρ)) :
    fault? (productions.mapM (Production.traverse f)) =
      (callees productions).findSome? fun rule => fault? (f rule) := by
  have called : (callees productions).findSome? (fun rule => fault? (f rule)) =
      (productions.flatMap Production.alternatives).flatten.findSome?
        fun step => step.callee?.bind fun rule => fault? (f rule) := by
    rw [callees, ← List.head?_filterMap, List.filterMap_filterMap, List.head?_filterMap]
  rw [called, findSome?_flatten, List.flatMap_def, findSome?_flatten, List.findSome?_map,
    fault?_mapM]
  simp only [Production.traverse, fault?_map, fault?_mapM, Step.fault?_traverse,
    Function.comp_def]

/-- A name is repeated first where the names in front of it are all different. -/
theorem firstRepeatedAfter?_eq_some_iff (seen names : List String) (name : String) :
    firstRepeatedAfter? seen names = some name ↔ ∃ front back, names = front ++ name :: back ∧
      front.Nodup ∧ (∀ other ∈ front, other ∉ seen) ∧ (name ∈ front ∨ name ∈ seen) := by
  induction names generalizing seen with
  | nil => simp [firstRepeatedAfter?]
  | cons first rest ih =>
    rw [firstRepeatedAfter?]
    split
    · rename_i found
      have before : first ∈ seen := List.contains_iff_mem.1 found
      constructor
      · intro same
        cases same
        exact ⟨[], rest, rfl, List.nodup_nil, List.forall_mem_nil _, .inr before⟩
      · rintro ⟨front, back, split, -, apart, -⟩
        -- nothing stands in front of a name that was seen
        cases front with
        | nil =>
          cases split
          rfl
        | cons _ _ =>
          cases split
          exact absurd before (apart _ (List.mem_cons_self ..))
    · rename_i missing
      have unseen : first ∉ seen := fun before => missing (List.contains_iff_mem.2 before)
      rw [ih]
      constructor
      · rintro ⟨front, back, rfl, nodup, apart, before⟩
        refine ⟨first :: front, back, rfl, ?_, ?_, ?_⟩
        · exact List.nodup_cons.2 ⟨fun again => apart first again (List.mem_cons_self ..), nodup⟩
        · exact List.forall_mem_cons.2 ⟨unseen, fun other member seen =>
            apart other member (List.mem_cons_of_mem _ seen)⟩
        · simpa [or_left_comm, or_assoc] using before
      · rintro ⟨front, back, split, nodup, apart, before⟩
        cases front with
        | nil =>
          cases split
          exact absurd (before.resolve_left List.not_mem_nil) unseen
        | cons _ front =>
          cases split
          obtain ⟨fresh, nodup⟩ := List.nodup_cons.1 nodup
          refine ⟨front, back, rfl, nodup, ?_, ?_⟩
          · intro other member again
            rcases List.mem_cons.1 again with rfl | again
            · exact fresh member
            · exact apart other (List.mem_cons_of_mem _ member) again
          · simpa [or_left_comm, or_assoc] using before

/-- **The first name that is repeated** is one of those in front of it, which are all different. -/
theorem firstRepeated?_eq_some_iff (names : List String) (name : String) :
    firstRepeated? names = some name ↔
      ∃ front back, names = front ++ name :: back ∧ front.Nodup ∧ name ∈ front := by
  simp [firstRepeated?, firstRepeatedAfter?_eq_some_iff]

namespace Grammar

/-- Looking up a name fails if no rule has it. -/
theorem fault?_lookup (grammar : Grammar) (name : String) :
    fault? (grammar.lookup name) =
      if name ∈ grammar.names then none else some (.undefinedRule name) := by
  rw [lookup]
  cases found : grammar.names.findIdx? (· == name) with
  | none =>
    have missing : name ∉ grammar.names := fun member => by
      simpa using List.findIdx?_eq_none_iff.1 found name member
    rw [if_neg missing]
    rfl
  | some rule =>
    obtain ⟨bound, same, -⟩ := List.findIdx?_eq_some_iff_getElem.1 found
    have member : name ∈ grammar.names := eq_of_beq same ▸ List.getElem_mem bound
    rw [if_pos member]
    rfl

/-- The first rule in reading order that is called and not defined. -/
def firstUndefined? (grammar : Grammar) : Option String :=
  (callees grammar.productions).find? fun name => name ∉ grammar.names

/-- **Resolving fails** for the first name that is repeated, and without such a name for the first
call of a rule that is not defined. -/
theorem fault?_resolve (grammar : Grammar) :
    fault? grammar.resolve = ((firstRepeated? grammar.names).map .duplicateRule).or
      (grammar.firstUndefined?.map .undefinedRule) := by
  rw [resolve]
  cases firstRepeated? grammar.names with
  | some name => rfl
  | none =>
    show fault? (grammar.productions.mapM _) = grammar.firstUndefined?.map Fault.undefinedRule
    rw [fault?_mapM_traverse, firstUndefined?, List.find?_eq_findSome?_guard, List.map_findSome?]
    congr 1
    funext name
    by_cases defined : name ∈ grammar.names <;> simp [fault?_lookup, defined, Option.guard]

/-- A name is repeated exactly if some name is the first to be. -/
theorem not_nodup_names_iff (grammar : Grammar) :
    ¬ grammar.names.Nodup ↔ ∃ name, firstRepeated? grammar.names = some name := by
  rw [← firstRepeated?_eq_none_iff, ← ne_eq, Option.ne_none_iff_exists']

/-- The first undefined rule is called behind rules that are all defined. -/
theorem firstUndefined?_eq_some_iff (grammar : Grammar) (name : String) :
    grammar.firstUndefined? = some name ↔ ∃ front back,
      callees grammar.productions = front ++ name :: back ∧
        (∀ other ∈ front, other ∈ grammar.names) ∧ name ∉ grammar.names := by
  rw [firstUndefined?, List.find?_eq_some_iff_append]
  simp only [decide_not, Bool.not_eq_eq_eq_not, Bool.not_true, decide_eq_false_iff_not,
    Bool.not_not, decide_eq_true_eq]
  constructor
  · rintro ⟨undefined, front, back, split, defined⟩
    exact ⟨front, back, split, defined, undefined⟩
  · rintro ⟨front, back, split, defined, undefined⟩
    exact ⟨undefined, front, back, split, defined⟩

/-- No rule is undefined exactly if all rules called are defined. -/
theorem firstUndefined?_eq_none_iff (grammar : Grammar) :
    grammar.firstUndefined? = none ↔
      ∀ name ∈ callees grammar.productions, name ∈ grammar.names := by
  simp [firstUndefined?]

end Grammar

end TransitionNetworks
