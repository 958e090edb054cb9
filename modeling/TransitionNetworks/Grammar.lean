import TransitionNetworks.Network

/-!
# Grammars

A grammar is a list of named rules, each with alternatives, each a list of steps. It calls rules by
name; `Grammar.resolve` replaces the names by places in the list, after it has made sure that no
name is defined twice. Of several faults it reports a repeated name before an undefined one, and of
each kind the first in reading order.
-/

namespace TransitionNetworks

universe u

/-- A step of an alternative, where a call names its rule by a `ρ`. -/
inductive Step (ρ : Type u) where
  /-- Consume one token that the matcher accepts. -/
  | consume (matcher : Matcher)
  /-- Go through a rule. -/
  | call (rule : ρ)
  /-- Consume nothing. -/
  | epsilon (kind : EpsilonKind)
  deriving DecidableEq

/-- One way to go through a rule: its steps one after the other. -/
abbrev Alternative (ρ : Type u) : Type u := List (Step ρ)

/-- A rule as a grammar writes it. -/
structure Production (ρ : Type u) where
  /-- The name of the rule. -/
  name : String
  /-- The ways to go through the rule. -/
  alternatives : List (Alternative ρ)
  deriving DecidableEq

/-- A list of rules that call each other by name. -/
structure Grammar where
  /-- The rules, each at the place that becomes its id. -/
  productions : List (Production String)
  deriving DecidableEq

/-- Replace the rule that a step calls, if it calls one. -/
def Step.traverse {ρ σ : Type u} {ε : Type u} (f : ρ → Except ε σ) : Step ρ → Except ε (Step σ)
  | consume matcher => .ok (.consume matcher)
  | call rule => (f rule).map .call
  | epsilon kind => .ok (.epsilon kind)

/-- Replace the rules that the alternatives of a production call. -/
def Production.traverse {ρ σ : Type u} {ε : Type u} (f : ρ → Except ε σ)
    (production : Production ρ) : Except ε (Production σ) :=
  (production.alternatives.mapM fun steps : Alternative ρ => steps.mapM (Step.traverse f)).map
    fun alternatives => { name := production.name, alternatives }

/-- The first name of a list that occurred before, given the names that came in front of it. -/
def firstRepeatedAfter? (seen : List String) : List String → Option String
  | [] => none
  | name :: rest =>
    if seen.contains name then some name else firstRepeatedAfter? (name :: seen) rest

/-- The first name of a list that occurred before. -/
def firstRepeated? (names : List String) : Option String := firstRepeatedAfter? [] names

/-- A name repeats itself unless all names are different. -/
theorem firstRepeatedAfter?_eq_none_iff (seen names : List String) :
    firstRepeatedAfter? seen names = none ↔ names.Nodup ∧ ∀ name ∈ names, name ∉ seen := by
  induction names generalizing seen with
  | nil => simp [firstRepeatedAfter?]
  | cons name rest ih =>
    unfold firstRepeatedAfter?
    split
    · rename_i before
      simp only [reduceCtorEq, List.mem_cons, false_iff, not_and]
      intro _ apart
      exact apart name (Or.inl rfl) (by simpa using before)
    · rename_i before
      rw [ih, List.nodup_cons]
      have before : name ∉ seen := by simpa using before
      grind

/-- No name repeats itself exactly if all names are different. -/
theorem firstRepeated?_eq_none_iff (names : List String) :
    firstRepeated? names = none ↔ names.Nodup := by
  simp [firstRepeated?, firstRepeatedAfter?_eq_none_iff]

namespace Grammar

/-- The names of the rules in order. -/
def names (grammar : Grammar) : List String := grammar.productions.map Production.name

/-- The place of the rule with a name. -/
def lookup (grammar : Grammar) (name : String) : Except Fault Nat :=
  match grammar.names.findIdx? (· == name) with
  | some rule => .ok rule
  | none => .error (.undefinedRule name)

/-- Replace the names in calls by the places of the rules. -/
def resolve (grammar : Grammar) : Except Fault (List (Production Nat)) :=
  match firstRepeated? grammar.names with
  | some name => .error (.duplicateRule name)
  | none => grammar.productions.mapM (Production.traverse grammar.lookup)

end Grammar

end TransitionNetworks
