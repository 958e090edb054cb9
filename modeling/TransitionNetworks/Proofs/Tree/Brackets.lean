import TransitionNetworks.Derivation
import Mathlib.Data.List.Basic

/-! # Brackets

The rules that a list of events enters and exits are brackets. They are well nested (`WellNested`)
if every rule entered is exited, and exited behind what is entered inside. What has to follow while
rules are open closes them, the innermost first (`Closes`): entering a rule puts it on top of those
to be closed (`closes_enter_iff`), and exiting one takes it from the top (`closes_exit_iff`). -/

namespace TransitionNetworks

namespace Event

/-- Whether a rule is entered or exited. -/
def isBracket : Event → Bool
  | enter _ => true
  | exit _ => true
  | consume _ => false

/-- The index of the token consumed. -/
def consumed? : Event → Option Nat
  | enter _ => none
  | exit _ => none
  | consume index => some index

/-- The rule entered. -/
def entered? : Event → Option Nat
  | enter rule => some rule
  | exit _ => none
  | consume _ => none

/-- The rules that are open behind an event, given those in front of it, the innermost first. -/
def openBehind (opened : List Nat) : Event → List Nat
  | enter rule => rule :: opened
  | exit _ => opened.tail
  | consume _ => opened

end Event

/-- The rules entered and exited, in order. -/
def brackets (events : List Event) : List Event := events.filter Event.isBracket

/-- The indexes of the tokens consumed, in order. -/
def consumedIndexes (events : List Event) : List Nat := events.filterMap Event.consumed?

/-- The rules entered, in order. -/
def enteredRules (events : List Event) : List Nat := events.filterMap Event.entered?

/-- The rules still open behind events, the innermost first. -/
def openRules (events : List Event) : List Nat := events.foldl Event.openBehind []

/-- Events followed by an exit of every rule still open, the innermost first. -/
def completed (events : List Event) : List Event := events ++ (openRules events).map .exit

/-- **Well-nested words.** Brackets that match in pairs of one rule. -/
inductive WellNested : List Event → Prop
  /-- Nothing is well nested. -/
  | nil : WellNested []
  /-- A rule entered and exited, with a word inside and a word behind. -/
  | nested {rule : Nat} {inside behind : List Event} (inner : WellNested inside)
      (others : WellNested behind) : WellNested (.enter rule :: (inside ++ .exit rule :: behind))

/-- **Words that close rules.** A word closes rules that are open, the innermost first, if what lies
between their exits is well nested. -/
inductive Closes : List Nat → List Event → Prop
  /-- Without open rules a word is well nested. -/
  | done {word : List Event} (nested : WellNested word) : Closes [] word
  /-- The innermost rule is exited behind a well-nested word. -/
  | exit {rule : Nat} {outer : List Nat} {inside behind : List Event} (nested : WellNested inside)
      (others : Closes outer behind) : Closes (rule :: outer) (inside ++ .exit rule :: behind)

/-- Without open rules the words that close are those that are well nested. -/
theorem closes_nil_iff {word : List Event} : Closes [] word ↔ WellNested word := by
  constructor
  · rintro ⟨nested⟩
    exact nested
  · exact .done

/-- Open rules can be closed. -/
theorem exists_closes (opened : List Nat) : ∃ word, Closes opened word := by
  induction opened with
  | nil => exact ⟨[], .done .nil⟩
  | cons rule outer ih =>
    obtain ⟨word, closes⟩ := ih
    exact ⟨_, .exit .nil closes⟩

/-- **Behind a rule entered** that rule is closed, and then those open before. -/
theorem closes_enter_iff {opened : List Nat} {rule : Nat} {word : List Event} :
    Closes opened (.enter rule :: word) ↔ Closes (rule :: opened) word := by
  constructor
  · intro closes
    generalize whole : Event.enter rule :: word = all at closes
    -- the rule entered is the first of a well-nested word, and closed inside of it
    cases closes with
    | done nested =>
      cases nested with
      | nil => cases whole
      | nested inner others =>
        cases whole
        exact .exit inner (.done others)
    | exit nested others =>
      cases nested with
      | nil => cases whole
      | nested inner between =>
        rw [List.cons_append] at whole
        cases whole
        rw [List.append_assoc, List.cons_append]
        exact .exit inner (.exit between others)
  · intro closes
    cases closes with
    | @exit _ _ inside behind nested others =>
      cases others with
      | done last => exact .done (.nested nested last)
      | @exit outermost outer between rest middle others =>
        -- the rule entered and what lies inside go in front of what lies between the exits
        have front : WellNested (.enter rule :: (inside ++ .exit rule :: between)) :=
          .nested nested middle
        have closes : Closes (outermost :: outer) _ := .exit front others
        simpa using closes

/-- **A rule is exited** if it is the innermost of those open. -/
theorem closes_exit_iff {opened : List Nat} {rule : Nat} {word : List Event} :
    Closes opened (.exit rule :: word) ↔ ∃ outer, opened = rule :: outer ∧ Closes outer word := by
  constructor
  · intro closes
    generalize whole : Event.exit rule :: word = all at closes
    -- no well-nested word begins with an exit
    cases closes with
    | done nested => cases nested <;> cases whole
    | exit nested others =>
      cases nested with
      | nil =>
        cases whole
        exact ⟨_, rfl, others⟩
      | nested => cases whole
  · rintro ⟨outer, rfl, closes⟩
    exact .exit .nil closes

end TransitionNetworks
