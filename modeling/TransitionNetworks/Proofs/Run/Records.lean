import TransitionNetworks.Proofs.Run.Stages

/-! # What a run records

A history only gets longer (`Passage.history_isPrefix`). What a run records on its way are finds, a
survey of each position visited, and stops that are left aside, since they were found inside a call
of another rule (`Findings.Routine`). So what holds of these occurrences holds of everything that is
recorded up to the verdict (`Network.records_settledFrom`). -/

namespace TransitionNetworks

/-- A note is recorded behind everything else. -/
theorem Findings.history_isPrefix_note (findings : Findings) (occurrence : Occurrence) :
    findings.history.toList <+: (findings.note occurrence).history.toList := by
  rw [Findings.note, Array.toList_push]
  exact List.prefix_append _ _

/-- What is discovered is recorded as a find, unless it is known. -/
theorem Findings.history_discover_eq_or (findings : Findings) (position : Nat) (item : Item)
    (why : Provenance) :
    (findings.discover position item why).history = findings.history ∨
      (findings.discover position item why).history =
        (findings.note (.found position item why)).history := by
  unfold Findings.discover
  split
  · exact .inl rfl
  · exact .inr rfl

/-- A find comes behind all that has happened. -/
theorem Findings.history_isPrefix_discover (findings : Findings) (position : Nat) (item : Item)
    (why : Provenance) :
    findings.history.toList <+: (findings.discover position item why).history.toList := by
  rcases findings.history_discover_eq_or position item why with known | isNew
  · exact known ▸ List.prefix_rfl
  · rw [isNew]
    exact findings.history_isPrefix_note _

/-- The history after a closing step continues the one before. -/
theorem ClosingStep.history_isPrefix {network : Network} {position : Nat}
    {findings later : Findings} (step : ClosingStep network position findings later) :
    findings.history.toList <+: later.history.toList := by
  refine step.preserves (fun later => findings.history.toList <+: later.history.toList) ?_ ?_ ?_
    List.prefix_rfl
  · exact fun before item why grown => grown.trans (before.history_isPrefix_discover _ item why)
  · exact fun _ _ grown => grown
  · exact fun before _ _ _ grown => grown.trans (before.history_isPrefix_note _)

/-- The history after a step of a run continues the one before. -/
theorem RunStep.history_isPrefix {network : Network} {input : List Token}
    {findings later : Findings} (step : RunStep network input findings later) :
    findings.history.toList <+: later.history.toList := by
  cases step with
  | closing step => exact step.history_isPrefix
  | scanning _ step =>
    cases step with
    | scan => exact findings.history_isPrefix_discover _ _ _
  | note => exact findings.history_isPrefix_note _

/-- **The history at the end of a passage** continues that of every stage. -/
theorem Passage.history_isPrefix {network : Network} {input : List Token}
    {findings later : Findings} {stages : List Findings}
    (passage : Passage network input findings stages later) :
    ∀ stage ∈ findings :: stages, stage.history.toList <+: later.history.toList := by
  induction passage with
  | refl findings => exact List.forall_mem_singleton.2 List.prefix_rfl
  | cons step _ ih =>
    refine List.forall_mem_cons.2 ⟨?_, ih⟩
    exact step.history_isPrefix.trans (ih _ (List.mem_cons_self ..))

namespace Findings

/-- **Occurrences of one sort.** Everything recorded so far is of that sort. -/
def Records (sort : Occurrence → Prop) (findings : Findings) : Prop :=
  ∀ occurrence ∈ findings.history.toList, sort occurrence

/-- **What a run records on its way** is of some sort. -/
structure Routine (network : Network) (start : Nat) (input : List Token)
    (sort : Occurrence → Prop) : Prop where
  /-- Finds are of the sort. -/
  found : ∀ position item why, sort (.found position item why)
  /-- Surveys are of the sort. -/
  surveyed : ∀ position items scanned, sort (.surveyed position items scanned)
  /-- Stops inside a call of another rule are of the sort, if they can be found. -/
  stray : ∀ (findings : Findings) (position : Nat) (stop : Item) (rule : Nat) (frame : Frame),
    findings.Linked network start input → findings.Has position stop →
    network.StopsIn rule stop.state → findings.stackGraph.frame? stop.stack = some frame →
    frame.rule ≠ rule → sort (.strayStop stop rule frame.rule)

variable {network : Network} {start : Nat} {input : List Token} {sort : Occurrence → Prop}
  {findings later : Findings} {position : Nat} {token : Token}

/-- Records stay of their sort with a note that is. -/
theorem Records.note (records : findings.Records sort) {occurrence : Occurrence}
    (now : sort occurrence) : (findings.note occurrence).Records sort := by
  intro other member
  rw [Findings.note, Array.toList_push, List.mem_append, List.mem_singleton] at member
  rcases member with old | rfl
  · exact records other old
  · exact now

/-- What is discovered is of the sort still, if finds are. -/
theorem Records.discover (records : findings.Records sort) {item : Item} {why : Provenance}
    (now : sort (.found position item why)) :
    (findings.discover position item why).Records sort := by
  rcases findings.history_discover_eq_or position item why with known | isNew
  · unfold Records
    rwa [known]
  · unfold Records
    rw [isNew]
    exact records.note now

/-- Records stay of their sort along returns if finds are. -/
theorem Records.returnAll (records : findings.Records sort)
    (found : ∀ position item why, sort (.found position item why)) (frame : Frame)
    (returns : List (Item × Item)) : (findings.returnAll position frame returns).Records sort := by
  induction returns generalizing findings with
  | nil => exact records
  | cons pair rest ih => exact ih (records.discover (found _ _ _))

/-- A closing step of linked findings records finds, and a stop that is left aside. -/
theorem Records.closingStep (records : findings.Records sort)
    (routine : Routine network start input sort) (linked : findings.Linked network start input)
    (step : ClosingStep network position findings later) : later.Records sort := by
  cases step with
  | @predict item entry follow rule found offers =>
    rw [predict_eq entry ⟨follow, rule, position⟩, enter]
    have registered : (findings.register ⟨follow, rule, position⟩ item).Records sort := records
    exact (registered.discover (routine.found _ _ _)).returnAll routine.found _ _
  | epsilon => exact records.discover (routine.found _ _ _)
  | @complete stop rule found stops =>
    cases here : findings.stackGraph.frame? stop.stack with
    | none =>
      rw [complete_of_frame?_eq_none here]
      exact records
    | some frame =>
      by_cases same : frame.rule = rule
      · subst same
        rw [complete_eq here]
        refine Records.returnAll ?_ routine.found frame _
        unfold Findings.remember
        split
        · exact records
        · exact records
      · rw [complete_of_ne here same]
        exact records.note (routine.stray _ _ _ _ _ linked found stops here same)

/-- Records stay of their sort while a position is closed. -/
theorem Records.closing (records : findings.Records sort)
    (routine : Routine network start input sort) (linked : findings.Linked network start input)
    (steps : Closing network position findings later) : later.Records sort := by
  induction steps with
  | refl => exact records
  | tail steps step ih => exact ih.closingStep routine (linked.closing steps) step

/-- Records stay of their sort while a token is scanned, if finds are. -/
theorem Records.scanning (records : findings.Records sort)
    (found : ∀ position item why, sort (.found position item why))
    (steps : Scanning network position token findings later) : later.Records sort := by
  induction steps with
  | refl => exact records
  | tail _ step ih =>
    cases step with
    | scan => exact ih.discover (found _ _ _)

/-- A visit records finds, stops that are left aside, and a survey. -/
theorem Swept.records_visit (swept : findings.Swept network start input position)
    (routine : Routine network start input sort) (read : input[position]? = some token)
    (records : findings.Records sort) : (findings.visit network position token).Records sort := by
  obtain ⟨linked, closing, -⟩ := swept.close
  obtain ⟨scanning, -⟩ := linked.scanAll_scanning read
  have closed := records.closing routine swept.linked closing
  exact (closed.scanning routine.found scanning).note (routine.surveyed _ _ _)

/-- The seed of a run records tokens left aside and its find. -/
theorem records_seeded (found : ∀ position item why, sort (.found position item why))
    (ignored : ∀ count position, sort (.ignored count position)) (rule : Rule)
    (tokens : List Token) : (seeded rule tokens).Records sort := by
  have nothing : initial.Records sort := fun _ none => absurd none List.not_mem_nil
  unfold seeded noteIgnored
  dsimp only
  split
  · exact nothing.discover (found _ _ _)
  · exact (nothing.note (ignored _ _)).discover (found _ _ _)

end Findings

namespace Network

/-- **What a run records up to its verdict** is of a sort of which are the tokens left aside and
what a run records on its way. -/
theorem records_settledFrom (network : Network) {startRule : Nat} {rule : Rule}
    (known : network.rule? startRule = some rule) (tokens : List Token) {sort : Occurrence → Prop}
    (routine : Findings.Routine network rule.start (inputOf tokens) sort)
    (ignored : ∀ count position, sort (.ignored count position)) :
    (network.settledFrom rule tokens).Records sort := by
  have seeded := network.swept_seeded known tokens
  have swept := seeded.sweep List.drop_zero (Nat.zero_le _)
  have records := seeded.sweep_invariant (Findings.Records sort) List.drop_zero
    (fun _ _ _ _ swept read before => swept.records_visit routine read before)
    (Findings.records_seeded routine.found ignored rule tokens)
  unfold settledFrom Findings.settle
  rw [← length_inputOf]
  split
  · exact records
  · exact records.closing routine swept.linked (swept.linked.close_closing _)

end Network

end TransitionNetworks
