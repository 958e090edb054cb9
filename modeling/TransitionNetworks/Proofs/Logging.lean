import TransitionNetworks.Proofs.Run.Notes

/-! # The log of a run

The log of a run is told by its chart (`Network.log_spec`). The lines of single steps recount what
an observer is told, one for one (`Recognition.Recounts`). The lines about the course of the run are
a line for every position that the sweep has come to (`Recognition.surveyLine`) and a line for the
end. The warnings are one for the tokens left aside, if there are any, and one for every stray stop
in the chart, in the order of the chart (`Recognition.strayLine?`). -/

namespace TransitionNetworks

/-- The tokens behind the first end marker, none if there is none. -/
def behindEndMarker (tokens : List Token) : List Token :=
  (tokens.dropWhile fun token => !token.isEndMarker).tail

/-- The warning about the tokens behind the first end marker, if there are any. -/
def ignoredLines (tokens : List Token) : List LogLine :=
  match behindEndMarker tokens with
  | [] => []
  | behind =>
    [⟨.warn, "Ignoring " ++ Nat.repr behind.length ++ " tokens after the end marker at position " ++
      Nat.repr (beforeEndMarker tokens).length ++ "."⟩]

/-- Whether an observer is told of a single step. -/
def Notice.isStep : Notice → Bool
  | predict .. => true
  | complete .. => true
  | scan .. => true
  | accept .. => false
  | reject .. => false

namespace Recognition

/-- The lines of a level, in order. -/
def linesOf (recognition : Recognition) (level : LogLevel) : List LogLine :=
  recognition.log.filter fun line => line.level = level

/-- **A line recounts a single step** that an observer is told of: which item was found where, from
which items, or over which token. -/
inductive Recounts (recognition : Recognition) : LogLine → Notice → Prop
  /-- A rule is predicted. -/
  | predict {position : Nat} {item prev : Item} {rule : Nat}
      (known : recognition.findings.provenance.find? ⟨position, item⟩ = some (.predict prev rule)) :
      Recounts recognition
        ⟨.trace, "Predicting " ++ item.mention ++ " at " ++ Nat.repr position ++ " from " ++
          prev.mention ++ "."⟩
        (.predict position item rule)
  /-- A call is completed. -/
  | complete {position : Nat} {item stop caller : Item} {rule : Nat}
      (known : recognition.findings.provenance.find? ⟨position, item⟩ =
        some (.complete stop caller rule)) :
      Recounts recognition
        ⟨.trace, "Completing " ++ stop.mention ++ " into " ++ item.mention ++ " at " ++
          Nat.repr position ++ "."⟩
        (.complete position item rule)
  /-- A token is scanned. -/
  | scan {position tokenIndex : Nat} {item prev : Item} {token : Token}
      (known : recognition.findings.provenance.find? ⟨position, item⟩ =
        some (.scan prev tokenIndex))
      (read : recognition.input[tokenIndex]? = some token) :
      Recounts recognition
        ⟨.trace, "Scanned " ++ mentionToken token ++ " into " ++ item.mention ++ "."⟩
        (.scan position item token)

/-- How many items of a position were found by scanning. -/
def scannedCount (recognition : Recognition) (position : Nat) : Nat :=
  (recognition.chart.itemsAt position).toList.countP fun item =>
    (recognition.findings.provenance.find? ⟨position, item⟩).any Provenance.isScan

/-- The line about a position: how many items it has, and how many of the next were scanned. -/
def surveyLine (recognition : Recognition) (position : Nat) : LogLine :=
  ⟨.debug, "Position " ++ Nat.repr position ++ ": " ++
    Nat.repr (recognition.chart.countAt position) ++ " items, " ++
    Nat.repr (recognition.scannedCount (position + 1)) ++ " scanned forward."⟩

/-- The line about the end: where the input was accepted, or how long an input was rejected. -/
def endLine (recognition : Recognition) : LogLine :=
  match recognition.accepting with
  | some place => ⟨.debug, "Accepted at position " ++ Nat.repr place.position ++ "."⟩
  | none => ⟨.debug, "Rejected input of " ++ Nat.repr recognition.endPosition ++ " tokens."⟩

/-- The warning about an item in which a rule stops inside a call of another rule. -/
def strayLine? (recognition : Recognition) (item : Item) : Option LogLine :=
  match (recognition.network.state? item.state).bind State.stopRule?,
    recognition.findings.stackGraph.frame? item.stack with
  | some rule, some frame =>
    if frame.rule = rule then none
    else some ⟨.warn, "Stop state of rule " ++ mentionRule rule ++ " reached inside a call to " ++
      mentionRule frame.rule ++ "; ignoring " ++ item.mention ++ "."⟩
  | _, _ => none

end Recognition

/-! ## Lines of a level -/

namespace Occurrence

/-- The line of a level that a log has for an occurrence. -/
def lineOf? (input : Array Token) (level : LogLevel) (occurrence : Occurrence) : Option LogLine :=
  (occurrence.line? input).filter fun line => line.level = level

/-- The line for a find. -/
def lineOfFound? (input : Array Token) (find : Place × Provenance) : Option LogLine :=
  lineOfFind? input find.1.position find.1.item find.2

end Occurrence

/-- The lines of single steps are those of the finds. -/
theorem Recognition.linesOf_trace (recognition : Recognition) :
    recognition.linesOf .trace =
      recognition.findings.finds.filterMap (Occurrence.lineOfFound? recognition.input) := by
  rw [linesOf, log, List.filter_filterMap, Findings.finds, List.filterMap_filterMap]
  refine List.filterMap_congr ?_
  intro occurrence _
  cases occurrence with
  | found position item why => cases why <;> rfl
  | ignored | strayStop | surveyed | accepted | rejected => rfl

/-- The lines of the other levels are those of the notes. -/
theorem Recognition.linesOf_eq (recognition : Recognition) {level : LogLevel}
    (other : level ≠ .trace) :
    recognition.linesOf level =
      recognition.findings.notes.filterMap (Occurrence.lineOf? recognition.input level) := by
  rw [linesOf, log, List.filter_filterMap, Findings.notes, List.filterMap_filter]
  refine List.filterMap_congr ?_
  intro occurrence _
  cases occurrence with
  | found position item why =>
    cases why with
    | seed | epsilon => rfl
    | predict | complete | scan =>
      simp [Occurrence.line?, Occurrence.lineOfFind?, Occurrence.find?, Ne.symm other]
  | ignored | strayStop | surveyed | accepted | rejected => rfl

/-! ## Single steps -/

/-- What two functions make of the elements of a list is related one for one, if of every element
they both make something, and related, or both nothing. -/
theorem forall₂_filterMap {α β γ : Type} {related : β → γ → Prop} {f : α → Option β}
    {g : α → Option γ} {list : List α}
    (alike : ∀ x ∈ list, f x = none ∧ g x = none ∨
      ∃ y z, f x = some y ∧ g x = some z ∧ related y z) :
    List.Forall₂ related (list.filterMap f) (list.filterMap g) := by
  induction list with
  | nil => exact .nil
  | cons x rest ih =>
    obtain ⟨first, others⟩ := List.forall_mem_cons.1 alike
    rcases first with ⟨none, none'⟩ | ⟨y, z, here, here', both⟩
    · rw [List.filterMap_cons_none none, List.filterMap_cons_none none']
      exact ih others
    · rw [List.filterMap_cons_some here, List.filterMap_cons_some here']
      exact .cons both (ih others)

/-- An observer is told of single steps by the finds. -/
theorem Occurrence.isStep_of_toldOf? {input : Array Token} {find : Place × Provenance}
    {notice : Notice} (told : toldOf? input find = some notice) : notice.isStep = true := by
  obtain ⟨place, why⟩ := find
  cases why with
  | seed | epsilon => cases told
  | predict | complete | scan =>
    cases told
    rfl

/-- The verdict is no single step. -/
theorem Recognition.isStep_verdict (recognition : Recognition) :
    recognition.verdict.isStep = false := by
  unfold verdict
  split
  · rfl
  · rfl

namespace Network

variable {network : Network} {startRule : Nat} {rule : Rule}

/-- The single steps that an observer is told of are the finds. -/
theorem steps_recognitionFrom (known : network.rule? startRule = some rule) (tokens : List Token) :
    let recognition := network.recognitionFrom startRule rule tokens
    recognition.notices.filter Notice.isStep =
      recognition.findings.finds.filterMap (Occurrence.toldOf? recognition.input) := by
  intro recognition
  have notices : recognition.notices = _ := network.notices_recognitionFrom known tokens
  rw [notices, List.filter_append, List.filter_singleton, recognition.isStep_verdict, cond_false,
    List.append_nil, List.filter_eq_self]
  intro notice member
  obtain ⟨find, -, told⟩ := List.mem_filterMap.1 member
  exact Occurrence.isStep_of_toldOf? told

/-- **The lines of single steps recount what an observer is told,** one for one and in order. -/
theorem forall₂_recounts (known : network.rule? startRule = some rule) (tokens : List Token) :
    let recognition := network.recognitionFrom startRule rule tokens
    List.Forall₂ recognition.Recounts (recognition.linesOf .trace)
      (recognition.notices.filter Notice.isStep) := by
  intro recognition
  obtain ⟨finished, -⟩ := network.finished_recognitionFrom known tokens
  have steps : recognition.notices.filter Notice.isStep = _ := steps_recognitionFrom known tokens
  rw [recognition.linesOf_trace, steps]
  refine forall₂_filterMap ?_
  rintro ⟨⟨position, item⟩, why⟩ member
  have recorded := (finished.linked.coherent.find?_eq_some_iff _ _).2 member
  cases why with
  | seed => exact Or.inl ⟨rfl, rfl⟩
  | epsilon prev => exact Or.inl ⟨rfl, rfl⟩
  | predict prev rule => exact Or.inr ⟨_, _, rfl, rfl, .predict recorded⟩
  | complete stop caller rule => exact Or.inr ⟨_, _, rfl, rfl, .complete recorded⟩
  | scan prev tokenIndex =>
    cases finished.linked.legal _ _ member with
    | @scan _ _ _ _ token _ read _ =>
      -- the token scanned is one of the input
      have here : recognition.input[tokenIndex]? = some token := by
        show (inputOf tokens).toArray[tokenIndex]? = some token
        rw [List.getElem?_toArray, read]
      have scanned : tokenAt recognition.input tokenIndex = token := by
        rw [tokenAt, here, Option.getD_some]
      refine Or.inr ⟨_, _, rfl, rfl, ?_⟩
      rw [scanned]
      exact .scan recorded here

/-! ## The course of a run -/

/-- A stray stop is no line about the course of a run, and its warning is that of the item. -/
theorem lineOf?_strayStop? (recognition : Recognition) (item : Item) :
    (recognition.network.strayStop? recognition.findings.stackGraph item).bind
        (Occurrence.lineOf? recognition.input .debug) = none ∧
      (recognition.network.strayStop? recognition.findings.stackGraph item).bind
        (Occurrence.lineOf? recognition.input .warn) = recognition.strayLine? item := by
  unfold Network.strayStop? Recognition.strayLine?
  cases (recognition.network.state? item.state).bind State.stopRule? with
  | none => exact ⟨rfl, rfl⟩
  | some rule =>
    cases recognition.findings.stackGraph.frame? item.stack with
    | none => exact ⟨rfl, rfl⟩
    | some frame =>
      by_cases same : frame.rule = rule
      · simp only [same, if_true]
        exact ⟨rfl, rfl⟩
      · simp only [same, if_false]
        exact ⟨rfl, rfl⟩

/-- The items of a position found by scanning are its finds by scanning. -/
theorem length_scannedAt (known : network.rule? startRule = some rule) (tokens : List Token)
    (position : Nat) :
    let recognition := network.recognitionFrom startRule rule tokens
    (recognition.findings.scannedAt position).length = recognition.scannedCount position := by
  intro recognition
  obtain ⟨finished, -⟩ := network.finished_recognitionFrom known tokens
  have coherent : recognition.findings.Coherent := finished.linked.coherent
  rw [Recognition.scannedCount, Recognition.chart, coherent.listing, List.countP_map,
    Findings.scannedAt, List.countP_filter, ← List.countP_eq_length_filter]
  refine List.countP_congr ?_
  rintro ⟨⟨other, item⟩, why⟩ member
  have recorded := (coherent.find?_eq_some_iff _ _).2 member
  by_cases here : other = position
  · subst here
    simp [recorded]
  · simp [here]

/-- The stray stops of a position are no lines about the course of a run, and their warnings are
those of its items. -/
theorem filterMap_straysAt (recognition : Recognition) (position : Nat) :
    let strays := recognition.findings.straysAt recognition.network position
    strays.filterMap (Occurrence.lineOf? recognition.input .debug) = [] ∧
      strays.filterMap (Occurrence.lineOf? recognition.input .warn) =
        (recognition.chart.itemsAt position).toList.filterMap recognition.strayLine? := by
  intro strays
  simp only [strays, Findings.straysAt, List.filterMap_filterMap]
  constructor
  · rw [List.filterMap_eq_nil_iff]
    exact fun item _ => (lineOf?_strayStop? recognition item).1
  · exact List.filterMap_congr fun item _ => (lineOf?_strayStop? recognition item).2

/-- The end is a line about the course of a run, and no warning. -/
theorem lineOf?_outcome (recognition : Recognition) :
    let outcome := Findings.outcome recognition.accepting recognition.endPosition
    outcome.lineOf? recognition.input .debug = some recognition.endLine ∧
      outcome.lineOf? recognition.input .warn = none := by
  intro outcome
  simp only [outcome, Recognition.endLine]
  cases recognition.accepting with
  | none => exact ⟨rfl, rfl⟩
  | some place => exact ⟨rfl, rfl⟩

/-- There are as many tokens behind the first end marker as are left when it is passed. -/
theorem length_behindEndMarker (tokens : List Token) :
    (behindEndMarker tokens).length = tokens.length - (beforeEndMarker tokens).length - 1 := by
  have both := congrArg List.length
    (List.takeWhile_append_dropWhile (p := fun token => !token.isEndMarker) (l := tokens))
  rw [List.length_append] at both
  rw [behindEndMarker, List.length_tail, beforeEndMarker]
  omega

/-- What is noted of the tokens left aside is warned of, and is no line about the course of a run.
-/
theorem filterMap_ignoredNotes (input : Array Token) (tokens : List Token) :
    (Findings.ignoredNotes tokens).filterMap (Occurrence.lineOf? input .debug) = [] ∧
      (Findings.ignoredNotes tokens).filterMap (Occurrence.lineOf? input .warn) =
        ignoredLines tokens := by
  rw [Findings.ignoredNotes, ← length_behindEndMarker, ignoredLines]
  cases behindEndMarker tokens with
  | nil => exact ⟨rfl, rfl⟩
  | cons token rest => exact ⟨rfl, rfl⟩

variable {tokens : List Token} {recognition : Recognition}

/-- The end marker is behind the tokens in front of it. -/
theorem endPosition_eq (ran : network.recognition startRule tokens = .ok recognition) :
    recognition.endPosition = (beforeEndMarker tokens).length := by
  obtain ⟨rule, known, rfl⟩ := exists_rule?_of_recognition ran
  simp [Recognition.endPosition, recognitionFrom]

/-- The survey of a position is a line about the course of a run, and no warning. -/
theorem lineOf?_survey (ran : network.recognition startRule tokens = .ok recognition)
    (position : Nat) :
    let survey := recognition.findings.survey position
    survey.lineOf? recognition.input .debug = some (recognition.surveyLine position) ∧
      survey.lineOf? recognition.input .warn = none := by
  intro survey
  obtain ⟨rule, known, rfl⟩ := exists_rule?_of_recognition ran
  simp only [survey, Findings.survey, length_scannedAt known tokens (position + 1)]
  exact ⟨rfl, rfl⟩

/-- What a run notes at the positions that its sweep has come to, as lines of a level. -/
theorem linesOf_eq_append (ran : network.recognition startRule tokens = .ok recognition)
    {level : LogLevel} (other : level ≠ .trace) :
    let lines := Occurrence.lineOf? recognition.input level
    let strays := fun position =>
      (recognition.findings.straysAt recognition.network position).filterMap lines
    let last := (beforeEndMarker tokens).length
    recognition.linesOf level =
      (Findings.ignoredNotes tokens).filterMap lines ++
        ((List.range (min (last + 1) recognition.chart.size)).flatMap fun position =>
          strays position ++ (lines (recognition.findings.survey position)).toList) ++
        strays (last + 1) ++
          (lines (Findings.outcome recognition.accepting recognition.endPosition)).toList := by
  intro lines strays last
  have ends := endPosition_eq ran
  rw [recognition.linesOf_eq other, ends]
  obtain ⟨rule, known, rfl⟩ := exists_rule?_of_recognition ran
  rw [network.notes_recognitionFrom known tokens]
  simp only [List.filterMap_append, List.filterMap_flatMap]
  rfl

/-- **The lines about the course of a run** are a survey of each position that the sweep has come
to, and its end. -/
theorem linesOf_debug (ran : network.recognition startRule tokens = .ok recognition) :
    recognition.linesOf .debug =
      (List.range (min ((beforeEndMarker tokens).length + 1) recognition.chart.size)).map
        recognition.surveyLine ++ [recognition.endLine] := by
  have lines := linesOf_eq_append ran (by decide : LogLevel.debug ≠ .trace)
  simp only [(filterMap_straysAt recognition _).1, (lineOf?_survey ran _).1,
    (lineOf?_outcome recognition).1, (filterMap_ignoredNotes recognition.input tokens).1,
    Option.toList_some, List.nil_append, List.append_nil] at lines
  rw [lines, List.map_eq_flatMap]

/-- The chart of a run ends behind the end marker at most. -/
theorem size_chart_le (ran : network.recognition startRule tokens = .ok recognition) :
    recognition.chart.size ≤ (beforeEndMarker tokens).length + 2 := by
  obtain ⟨rule, known, rfl⟩ := exists_rule?_of_recognition ran
  have within := (network.finished_recognitionFrom known tokens).1.size_chart_le_length
    (network.filled_recognitionFrom startRule rule tokens)
  rwa [length_inputOf] at within

/-- **The warnings of a run** are one for the tokens left aside, if there are any, and one for every
stray stop in the chart. -/
theorem linesOf_warn (ran : network.recognition startRule tokens = .ok recognition) :
    recognition.linesOf .warn = ignoredLines tokens ++
      (List.range recognition.chart.size).flatMap fun position =>
        (recognition.chart.itemsAt position).toList.filterMap recognition.strayLine? := by
  have lines := linesOf_eq_append ran (by decide : LogLevel.warn ≠ .trace)
  simp only [(filterMap_straysAt recognition _).2, (lineOf?_survey ran _).2,
    (lineOf?_outcome recognition).2, (filterMap_ignoredNotes recognition.input tokens).2,
    Option.toList_none, List.append_nil, List.append_assoc] at lines
  rw [lines]
  refine congrArg (ignoredLines tokens ++ ·) ?_
  have within := size_chart_le ran
  by_cases whole : recognition.chart.size = (beforeEndMarker tokens).length + 2
  · rw [whole, Nat.min_eq_left (Nat.le_succ _),
      @List.range_succ ((beforeEndMarker tokens).length + 1), List.flatMap_append,
      List.flatMap_singleton]
  · -- the chart does not reach behind the end marker
    have nothing : recognition.chart.itemsAt ((beforeEndMarker tokens).length + 1) = ∅ := by
      rw [Chart.itemsAt, Chart.set?_eq_ite, if_neg (by omega)]
      rfl
    rw [nothing, Nat.min_eq_right (by omega)]
    exact List.append_nil _

/-- The warning about the tokens left aside is the first line of the log. -/
theorem ignoredLines_isPrefix (ran : network.recognition startRule tokens = .ok recognition) :
    ignoredLines tokens <+: recognition.log := by
  obtain ⟨rule, known, rfl⟩ := exists_rule?_of_recognition ran
  have first : (Findings.initial.noteIgnored tokens (beforeEndMarker tokens).length).history.toList
      <+: (network.recognitionFrom startRule rule tokens).findings.history.toList :=
    (Findings.history_isPrefix_discover _ _ _ _).trans
      ((network.passage_stages startRule rule tokens).history_isPrefix _ List.mem_cons_self)
  have lines := first.filterMap (Occurrence.line? (inputOf tokens).toArray)
  have ignored : (Findings.initial.noteIgnored tokens
      (beforeEndMarker tokens).length).history.toList.filterMap
        (Occurrence.line? (inputOf tokens).toArray) = ignoredLines tokens := by
    rw [Findings.noteIgnored, ← length_behindEndMarker, ignoredLines]
    cases behindEndMarker tokens with
    | nil => rfl
    | cons token rest => rfl
  rwa [ignored] at lines

/-- The last position of the chart of a run is the last one with an item. -/
theorem exists_last (ran : network.recognition startRule tokens = .ok recognition) :
    ∃ last, recognition.chart.size = last + 1 ∧ recognition.chart.countAt last ≠ 0 ∧
      ∀ position, last < position → recognition.chart.countAt position = 0 := by
  obtain ⟨rule, known, rfl⟩ := exists_rule?_of_recognition ran
  obtain ⟨finished, -⟩ := network.finished_recognitionFrom known tokens
  have has := finished.linked.lt_size_iff (network.filled_recognitionFrom startRule rule tokens)
  have seeded := finished.seeded.lt_size
  simp only [Recognition.chart]
  generalize (network.recognitionFrom startRule rule tokens).findings = findings at has seeded ⊢
  refine ⟨findings.chart.size - 1, by omega, ?_, ?_⟩
  · intro none
    exact (findings.countAt_eq_zero_iff _).1 none ((has _).1 (by omega))
  · intro position behind
    exact (findings.countAt_eq_zero_iff _).2 fun found => by
      have inside := (has position).2 found
      omega

/-- **The log of a run is told by its chart.** From a rule that exists a run succeeds. The lines of
single steps recount, one for one and in order, what an observer is told. The lines about the course
of the run are one for each position up to the end marker or the last position with an item,
whichever comes first, with the number of its items in the chart and of those at the next position
that were found by scanning; and then one that says whether the input is accepted. The warnings are
one for the tokens behind the first end marker, in front of all other lines, if there are such
tokens; and then one for every item of the chart in which a rule stops inside a call of another
rule, in the order of the chart. -/
theorem log_spec (network : Network) {startRule : Nat} {rule : Rule}
    (known : network.rule? startRule = some rule) (tokens : List Token) :
    ∃ recognition, network.recognition startRule tokens = .ok recognition ∧
      List.Forall₂ recognition.Recounts (recognition.linesOf .trace)
        (recognition.notices.filter Notice.isStep) ∧
      (∃ last, recognition.chart.countAt last ≠ 0 ∧
        (∀ position, last < position → recognition.chart.countAt position = 0) ∧
        recognition.linesOf .debug =
          (List.range (min (beforeEndMarker tokens).length last + 1)).map recognition.surveyLine ++
            [recognition.endLine]) ∧
      ignoredLines tokens <+: recognition.log ∧
      recognition.linesOf .warn = ignoredLines tokens ++
        (List.range recognition.chart.size).flatMap fun position =>
          (recognition.chart.itemsAt position).toList.filterMap recognition.strayLine? := by
  have ran := recognition_of_rule? known tokens
  refine ⟨_, ran, forall₂_recounts known tokens, ?_, ignoredLines_isPrefix ran, linesOf_warn ran⟩
  obtain ⟨last, size, some', none⟩ := exists_last ran
  refine ⟨last, some', none, ?_⟩
  rw [linesOf_debug ran, size, Nat.succ_min_succ]

/-- A network in which a rule enters another one that leads to the stop state of the first. -/
def crossing : Network where
  states :=
    #[⟨.start 0, [.call 2 1 1]⟩, ⟨.stop 0, []⟩, ⟨.start 1, [.epsilon .plain 1]⟩, ⟨.stop 1, []⟩]
  rules := #[⟨"A", 0, 1⟩, ⟨"B", 2, 3⟩]
  faultless := by decide

/-- The sample warns of a token behind the end marker and of the stop state of its first rule that
is reached inside a call of the second. -/
theorem log_spec_crossing :
    ∃ recognition, crossing.recognition 0 [Token.endMarker, 7] = .ok recognition ∧
      recognition.linesOf .warn =
        [⟨.warn, "Ignoring 1 tokens after the end marker at position 0."⟩,
          ⟨.warn, "Stop state of rule RuleIndex(0) reached inside a call to RuleIndex(1); " ++
            "ignoring Item \x7b state: StateId(1), origin: 0, stack: StackId(1) \x7d."⟩] := by
  have known : crossing.rule? 0 = some ⟨"A", 0, 1⟩ := rfl
  obtain ⟨recognition, ran, -, -, -, warnings⟩ := log_spec crossing known [Token.endMarker, 7]
  refine ⟨recognition, ran, warnings.trans ?_⟩
  cases Except.ok.inj ((recognition_of_rule? known [Token.endMarker, 7]).symm.trans ran)
  decide +kernel

end Network

end TransitionNetworks
