import TransitionNetworks.Proofs.Run.Sweep

/-! # The stages of a run

A run takes one step after the other, and what it has found after each of them is a stage. The
stages are listed loop by loop (`Findings.stagesAlong`), along the operations of the run: those of
an expansion are one for each transition that is followed, or the one of the rule that stops; those
of a closing are the stages of its expansions; and so on up to the stages of a whole run
(`Network.stages`).

Nothing happens between two stages: each is one step behind the one in front of it, and the last is
where the operation ends. A loop makes steps of one sort (`Course`), of which it is known at which
position they are made; a run makes steps of all sorts (`Passage`). So what every step preserves
holds at every stage (`Passage.invariant`), for which `Network.passage_stages` says that a run is a
passage. -/

namespace TransitionNetworks

/-- **The steps of a run** of a network on an input. -/
inductive RunStep (network : Network) (input : List Token) : Findings → Findings → Prop
  /-- A rule is predicted, an epsilon transition is taken, or a rule is completed. -/
  | closing {position : Nat} {findings later : Findings}
      (step : ClosingStep network position findings later) : RunStep network input findings later
  /-- The token at a position is scanned. -/
  | scanning {position : Nat} {token : Token} {findings later : Findings}
      (read : input[position]? = some token)
      (step : ScanningStep network position token findings later) :
      RunStep network input findings later
  /-- Something is noted that is no find. -/
  | note {findings : Findings} {occurrence : Occurrence} (noFind : occurrence.find? = none) :
      RunStep network input findings (findings.note occurrence)

/-- **Passages.** Findings pass through stages to later findings if each stage is one step behind
the one in front of it and the last is where the passage ends. -/
inductive Passage (network : Network) (input : List Token) :
    Findings → List Findings → Findings → Prop
  /-- Without a step nothing changes. -/
  | refl (findings : Findings) : Passage network input findings [] findings
  /-- A step leads to the first stage. -/
  | cons {findings next later : Findings} {stages : List Findings}
      (step : RunStep network input findings next)
      (rest : Passage network input next stages later) :
      Passage network input findings (next :: stages) later

/-- **Courses.** A course has stages as a passage has, but all its steps are of one sort. -/
inductive Course (step : Findings → Findings → Prop) : Findings → List Findings → Findings → Prop
  /-- Without a step nothing changes. -/
  | refl (findings : Findings) : Course step findings [] findings
  /-- A step leads to the first stage. -/
  | cons {findings next later : Findings} {stages : List Findings} (first : step findings next)
      (rest : Course step next stages later) : Course step findings (next :: stages) later

section

variable {network : Network} {input : List Token} {findings later latest : Findings}
  {stages others : List Findings} {position : Nat} {item : Item} {token : Token}
  {step : Findings → Findings → Prop}

/-- One step is a course. -/
theorem Course.single (made : step findings later) : Course step findings [later] later :=
  .cons made (.refl later)

/-- Courses are put together. -/
theorem Course.append (first : Course step findings stages later)
    (second : Course step later others latest) :
    Course step findings (stages ++ others) latest := by
  induction first with
  | refl => exact second
  | cons made _ ih => exact .cons made (ih second)

/-- The stages of a course are reached by its steps, and so is its end. -/
theorem Course.reached (course : Course step findings stages later) :
    (∀ stage ∈ stages, Relation.ReflTransGen step findings stage) ∧
      Relation.ReflTransGen step findings later := by
  induction course with
  | refl => exact ⟨fun _ none => absurd none List.not_mem_nil, .refl⟩
  | cons made _ ih =>
    refine ⟨List.forall_mem_cons.2 ⟨.single made, fun stage member => ?_⟩, ih.2.head made⟩
    exact (ih.1 stage member).head made

/-- Findings grow along a course if they grow with its steps. -/
theorem Course.grows (course : Course step findings stages later)
    (grows : ∀ {findings later}, step findings later → findings.Extends later) :
    findings.Extends later := by
  induction course with
  | refl findings => exact Findings.Extends.refl findings
  | cons made _ ih => exact (grows made).trans ih

/-- A course of steps that a run can make is a passage. -/
theorem Course.passage (course : Course step findings stages later)
    (sort : ∀ {findings later}, step findings later → RunStep network input findings later) :
    Passage network input findings stages later := by
  induction course with
  | refl => exact .refl _
  | cons made _ ih => exact .cons (sort made) ih

/-- Findings grow with every step of a run. -/
theorem RunStep.grows (step : RunStep network input findings later) : findings.Extends later := by
  cases step with
  | closing step => exact step.grows
  | scanning _ step => exact step.grows
  | note noFind => exact Findings.extends_note findings noFind

/-- Every step of a run keeps findings linked. -/
theorem RunStep.linked {start : Nat} (step : RunStep network input findings later)
    (linked : findings.Linked network start input) : later.Linked network start input := by
  cases step with
  | closing step => exact linked.closingStep step
  | scanning read step => exact linked.scanningStep read step
  | note noFind => exact linked.note noFind

/-- One step is a passage. -/
theorem Passage.single (step : RunStep network input findings later) :
    Passage network input findings [later] later :=
  .cons step (.refl later)

/-- Passages are put together. -/
theorem Passage.append (first : Passage network input findings stages later)
    (second : Passage network input later others latest) :
    Passage network input findings (stages ++ others) latest := by
  induction first with
  | refl => exact second
  | cons step _ ih => exact .cons step (ih second)

/-- Findings grow along a passage. -/
theorem Passage.grows (passage : Passage network input findings stages later) :
    findings.Extends later := by
  induction passage with
  | refl findings => exact Findings.Extends.refl findings
  | cons step _ ih => exact step.grows.trans ih

/-- **What every step preserves** holds at every stage and where the passage ends. -/
theorem Passage.invariant {holds : Findings → Prop}
    (preserved : ∀ findings later, RunStep network input findings later → holds findings →
      holds later)
    (passage : Passage network input findings stages later) (first : holds findings) :
    (∀ stage ∈ findings :: stages, holds stage) ∧ holds later := by
  induction passage with
  | refl findings => exact ⟨List.forall_mem_singleton.2 first, first⟩
  | cons step _ ih =>
    obtain ⟨all, last⟩ := ih (preserved _ _ step first)
    exact ⟨List.forall_mem_cons.2 ⟨first, all⟩, last⟩

end

/-! ## The stages of every operation -/

namespace Findings

/-- The stages of a loop over a list, given those of its body. -/
def stagesAlong {α : Type} (stages : Findings → α → List Findings)
    (body : Findings → α → Findings) : Findings → List α → List Findings
  | _, [] => []
  | findings, first :: rest =>
    stages findings first ++ stagesAlong stages body (body findings first) rest

/-- The stage of following a transition, if it needs no token. -/
def followStages (position : Nat) (item : Item) (findings : Findings) :
    Transition → List Findings
  | .terminal .. => []
  | .call start follow rule => [findings.follow position item (.call start follow rule)]
  | .epsilon kind target => [findings.follow position item (.epsilon kind target)]

/-- The stages of expanding an item. -/
def expandStages (network : Network) (position : Nat) (findings : Findings) (item : Item) :
    List Findings :=
  match network.state? item.state with
  | none => []
  | some state =>
    match state.stopRule? with
    | some rule => [findings.complete position item rule]
    | none =>
      stagesAlong (followStages position item)
        (fun findings transition => findings.follow position item transition) findings
        state.transitions

/-- The stages of expanding the items at a position from place `cursor` on. -/
def expandFromStages (network : Network) (position : Nat) :
    Nat → Nat → Findings → List Findings
  | 0, _, _ => []
  | fuel + 1, cursor, findings =>
    match findings.chart.item? position cursor with
    | none => []
    | some item =>
      expandStages network position findings item ++
        expandFromStages network position fuel (cursor + 1)
          (findings.expand network position item)

/-- The stages of closing a position. -/
def closeStages (network : Network) (position : Nat) (findings : Findings) : List Findings :=
  expandFromStages network position (network.capacity position) 0 findings

/-- The stage of consuming a token by a transition, if its matcher accepts the token. -/
def consumeStages (position : Nat) (token : Token) (item : Item) (findings : Findings) :
    Transition → List Findings
  | .terminal matcher target =>
    if matcher.accepts token then
      [findings.consume position token item (.terminal matcher target)]
    else
      []
  | .call .. => []
  | .epsilon .. => []

/-- The stages of scanning a token from an item. -/
def scanStages (network : Network) (position : Nat) (token : Token) (findings : Findings)
    (item : Item) : List Findings :=
  match network.state? item.state with
  | none => []
  | some state =>
    match state.stopRule? with
    | some _ => []
    | none =>
      stagesAlong (consumeStages position token item)
        (fun findings transition => findings.consume position token item transition) findings
        state.transitions

/-- The stages of scanning the token at a position. -/
def scanAllStages (network : Network) (position : Nat) (token : Token) (findings : Findings) :
    List Findings :=
  stagesAlong (scanStages network position token)
    (fun findings item => findings.scan network position token item) findings
    (findings.chart.itemsAt position).toList

/-- The stages of a visit, at the last of which it is noted. -/
def visitStages (network : Network) (position : Nat) (token : Token) (findings : Findings) :
    List Findings :=
  closeStages network position findings ++
    (scanAllStages network position token (findings.close network position) ++
      [findings.visit network position token])

/-- The stages of a sweep. -/
def sweepStages (network : Network) : Nat → List Token → Findings → List Findings
  | _, [], _ => []
  | position, token :: rest, findings =>
    visitStages network position token findings ++
      if (findings.visit network position token).chart.countAt (position + 1) = 0 then []
      else sweepStages network (position + 1) rest (findings.visit network position token)

/-- The stages of settling the position behind the end marker at `last`. -/
def settleStages (network : Network) (last : Nat) (findings : Findings) : List Findings :=
  if findings.chart.countAt (last + 1) = 0 then [] else closeStages network (last + 1) findings

variable {network : Network} {input : List Token} {findings : Findings} {position : Nat}
  {item : Item} {token : Token}

/-- A loop is a course if its body is one, whatever the loop has found so far. -/
theorem course_stagesAlong {α : Type} {step : Findings → Findings → Prop}
    (grows : ∀ {findings later}, step findings later → findings.Extends later)
    {stages : Findings → α → List Findings} {body : Findings → α → Findings} (elements : List α)
    (passes : ∀ x ∈ elements, ∀ later, findings.Extends later →
      Course step later (stages later x) (body later x)) :
    Course step findings (stagesAlong stages body findings elements)
      (elements.foldl body findings) := by
  induction elements generalizing findings with
  | nil => exact .refl findings
  | cons first rest ih =>
    have now := passes first (List.mem_cons_self ..) findings (Extends.refl findings)
    refine now.append (ih ?_)
    intro x member later grown
    exact passes x (List.mem_cons_of_mem _ member) later ((now.grows grows).trans grown)

/-- Following a transition that an item offers is a course of closing steps. -/
theorem course_follow (found : findings.Has position item) {transition : Transition}
    (offers : network.Offers item.state transition) :
    Course (ClosingStep network position) findings (followStages position item findings transition)
      (findings.follow position item transition) := by
  cases transition with
  | terminal matcher target => exact .refl findings
  | call start follow rule => exact .single (.predict found offers)
  | epsilon kind target => exact .single (.epsilon found offers)

/-- Expanding an item is a course of closing steps. -/
theorem course_expand (found : findings.Has position item) :
    Course (ClosingStep network position) findings (expandStages network position findings item)
      (findings.expand network position item) := by
  unfold expandStages
  cases here : network.state? item.state with
  | none =>
    have same : findings.expand network position item = findings := by simp [expand, here]
    rw [same]
    exact .refl findings
  | some state =>
    cases stop : state.stopRule? with
    | some rule =>
      rw [expand_eq_complete here stop]
      simp only [stop]
      exact .single (.complete found ⟨state, here, stop⟩)
    | none =>
      rw [expand_eq_foldl here stop]
      simp only [stop]
      refine course_stagesAlong ClosingStep.grows state.transitions ?_
      intro transition member later grown
      exact course_follow (grown.has found) ⟨state, here, stop, member⟩

/-- Expanding items from a cursor on is a course of closing steps. -/
theorem course_expandFrom (fuel cursor : Nat) (findings : Findings) :
    Course (ClosingStep network position) findings
      (expandFromStages network position fuel cursor findings)
      (findings.expandFrom network position fuel cursor) := by
  induction fuel generalizing cursor findings with
  | zero => exact .refl findings
  | succ fuel ih =>
    unfold expandFromStages expandFrom
    cases here : findings.chart.item? position cursor with
    | none => exact .refl findings
    | some item =>
      have found : findings.Has position item := Enumeration.mem_iff_exists_get?.2 ⟨cursor, here⟩
      exact (course_expand found).append (ih (cursor + 1) _)

/-- **Closing a position is a course** of closing steps there. -/
theorem course_close (network : Network) (position : Nat) (findings : Findings) :
    Course (ClosingStep network position) findings (closeStages network position findings)
      (findings.close network position) :=
  course_expandFrom (network.capacity position) 0 findings

/-- Closing a position is a passage. -/
theorem passage_close (network : Network) (input : List Token) (position : Nat)
    (findings : Findings) :
    Passage network input findings (closeStages network position findings)
      (findings.close network position) :=
  (course_close network position findings).passage .closing

/-- Consuming a token by a transition that an item offers is a course of scanning steps. -/
theorem course_consume (found : findings.Has position item) (token : Token)
    {transition : Transition} (offers : network.Offers item.state transition) :
    Course (ScanningStep network position token) findings
      (consumeStages position token item findings transition)
      (findings.consume position token item transition) := by
  cases transition with
  | call => exact .refl findings
  | epsilon => exact .refl findings
  | terminal matcher target =>
    by_cases accepts : matcher.accepts token = true
    · simp only [consumeStages, consume, if_pos accepts]
      exact .single (.scan found offers accepts)
    · simp only [consumeStages, consume, if_neg accepts]
      exact .refl findings

/-- Scanning a token from an item is a course of scanning steps. -/
theorem course_scan (found : findings.Has position item) (token : Token) :
    Course (ScanningStep network position token) findings
      (scanStages network position token findings item)
      (findings.scan network position token item) := by
  unfold scanStages scan
  cases here : network.state? item.state with
  | none => exact .refl findings
  | some state =>
    cases stop : state.stopRule? with
    | some rule =>
      simp only [stop]
      exact .refl findings
    | none =>
      simp only [stop]
      refine course_stagesAlong ScanningStep.grows state.transitions ?_
      intro transition member later grown
      exact course_consume (grown.has found) token ⟨state, here, stop, member⟩

/-- **Scanning a token is a course** of scanning steps at its position. -/
theorem course_scanAll (network : Network) (position : Nat) (token : Token) (findings : Findings) :
    Course (ScanningStep network position token) findings
      (scanAllStages network position token findings)
      (findings.scanAll network position token) := by
  rw [scanAll, ← Array.foldl_toList]
  refine course_stagesAlong ScanningStep.grows (findings.chart.itemsAt position).toList ?_
  intro item found later grown
  exact course_scan (grown.has found) token

/-- Scanning a position is a passage. -/
theorem passage_scanAll (network : Network) (read : input[position]? = some token)
    (findings : Findings) :
    Passage network input findings (scanAllStages network position token findings)
      (findings.scanAll network position token) :=
  (course_scanAll network position token findings).passage (.scanning read)

/-- Visiting a position is a passage. -/
theorem passage_visit (network : Network) (read : input[position]? = some token)
    (findings : Findings) :
    Passage network input findings (visitStages network position token findings)
      (findings.visit network position token) := by
  have scanned := passage_scanAll network read (findings.close network position)
  exact (passage_close network input position findings).append
    (scanned.append (.single (.note rfl)))

/-- A sweep is a passage, also if it ends early. -/
theorem passage_sweep (network : Network) {rest : List Token} (unread : input.drop position = rest)
    (findings : Findings) :
    Passage network input findings (sweepStages network position rest findings)
      (findings.sweep network position rest) := by
  induction rest generalizing findings position with
  | nil => exact .refl findings
  | cons token rest ih =>
    obtain ⟨read, left⟩ := getElem?_and_drop_of_drop_eq_cons unread
    have visited := passage_visit network read findings
    by_cases none : (findings.visit network position token).chart.countAt (position + 1) = 0
    · simp only [sweepStages, Findings.sweep, none, if_true, List.append_nil]
      exact visited
    · simp only [sweepStages, Findings.sweep, none, if_false]
      exact visited.append (ih left _)

/-- Settling the last position is a passage. -/
theorem passage_settle (network : Network) (input : List Token) (last : Nat)
    (findings : Findings) :
    Passage network input findings (settleStages network last findings)
      (findings.settle network last) := by
  by_cases none : findings.chart.countAt (last + 1) = 0
  · simp only [settleStages, settle, none, if_true]
    exact .refl findings
  · simp only [settleStages, settle, none, if_false]
    exact passage_close network input (last + 1) findings

/-- Noting the verdict is a passage of one step. -/
theorem passage_noteVerdict (network : Network) (input : List Token) (accepting : Option Place)
    (last : Nat) (findings : Findings) :
    Passage network input findings [findings.noteVerdict accepting last]
      (findings.noteVerdict accepting last) := by
  unfold noteVerdict
  cases accepting with
  | none => exact .single (.note rfl)
  | some place => exact .single (.note rfl)

/-- The findings with which a run from a rule begins: the start state, outside all calls. -/
def seeded (rule : Rule) (tokens : List Token) : Findings :=
  (initial.noteIgnored tokens (beforeEndMarker tokens).length).discover 0
    ⟨rule.start, 0, emptyStack⟩ .seed

end Findings

/-! ## The stages of a run -/

namespace Network

/-- The seed of a run is swept up to the first position. -/
theorem swept_seeded (network : Network) {startRule : Nat} {rule : Rule}
    (known : network.rule? startRule = some rule) (tokens : List Token) :
    (Findings.seeded rule tokens).Swept network rule.start (inputOf tokens) 0 :=
  network.swept_seed known tokens (inputOf tokens) (beforeEndMarker tokens).length

/-- What a run has found before its verdict. -/
def settledFrom (network : Network) (rule : Rule) (tokens : List Token) : Findings :=
  ((Findings.seeded rule tokens).sweep network 0 (inputOf tokens)).settle network
    (beforeEndMarker tokens).length

/-- The findings of a run are those from before its verdict, with the verdict noted. -/
theorem findings_recognitionFrom (network : Network) (startRule : Nat) (rule : Rule)
    (tokens : List Token) :
    (network.recognitionFrom startRule rule tokens).findings =
      (network.settledFrom rule tokens).noteVerdict
        (network.recognitionFrom startRule rule tokens).accepting
        (beforeEndMarker tokens).length := by
  simp only [recognitionFrom, settledFrom, Findings.seeded, inputOf]

/-- A run accepts where the stop state of its rule was found outside all calls before the verdict.
-/
theorem accepting_eq_acceptance?_settledFrom (network : Network) (startRule : Nat) (rule : Rule)
    (tokens : List Token) :
    (network.recognitionFrom startRule rule tokens).accepting =
      (network.settledFrom rule tokens).acceptance? ⟨rule.stop, 0, emptyStack⟩
        (beforeEndMarker tokens).length := by
  simp only [recognitionFrom, settledFrom, Findings.seeded, inputOf]

/-- **The stages of a run** from a rule: those of the sweep over its input, those of settling the
position behind the end marker, and the verdict. -/
def stages (network : Network) (startRule : Nat) (rule : Rule) (tokens : List Token) :
    List Findings :=
  let input := inputOf tokens
  let last := (beforeEndMarker tokens).length
  let seeded := Findings.seeded rule tokens
  Findings.sweepStages network 0 input seeded ++
    (Findings.settleStages network last (seeded.sweep network 0 input) ++
      [(network.recognitionFrom startRule rule tokens).findings])

/-- **A run is a passage** from its seed through its stages. -/
theorem passage_stages (network : Network) (startRule : Nat) (rule : Rule) (tokens : List Token) :
    Passage network (inputOf tokens) (Findings.seeded rule tokens)
      (network.stages startRule rule tokens)
      (network.recognitionFrom startRule rule tokens).findings := by
  have unread : (inputOf tokens).drop 0 = inputOf tokens := List.drop_zero
  have swept := Findings.passage_sweep network unread (Findings.seeded rule tokens)
  simp only [stages, findings_recognitionFrom, settledFrom]
  exact swept.append ((Findings.passage_settle network _ _ _).append
    (Findings.passage_noteVerdict network _ _ _ _))

/-- **The findings of a run are linked at every stage.** -/
theorem linked_stages (network : Network) {startRule : Nat} {rule : Rule}
    (known : network.rule? startRule = some rule) (tokens : List Token) :
    ∀ stage ∈ Findings.seeded rule tokens :: network.stages startRule rule tokens,
      stage.Linked network rule.start (inputOf tokens) := by
  have seeded := (network.swept_seeded known tokens).linked
  exact ((network.passage_stages startRule rule tokens).invariant
    (fun _ _ step => step.linked) seeded).1

end Network

end TransitionNetworks
