import TransitionNetworks.Proofs.Bounds
import TransitionNetworks.Proofs.Renumbering.Runs

/-! # The chart is built online

What a run finds up to a position depends on the tokens in front of the position only. Two runs of a
network on inputs with the same first tokens keep in step until these are consumed and the position
behind them is closed (`Findings.Swept.findsUpTo_sweep`); from then on finds are added further
behind (`Findings.Swept.adds_sweep`). So the charts, the provenance and what an observer is told
agree up to that position, whatever comes later and wherever the inputs end
(`Network.recognition_online`). -/

namespace TransitionNetworks

/-- Whether a notice is of a step up to a position; a verdict is not. -/
def Notice.isStepUpTo (last : Nat) : Notice → Bool
  | predict position _ _ => position ≤ last
  | complete position _ _ => position ≤ last
  | scan position _ _ => position ≤ last
  | accept .. => false
  | reject _ => false

namespace Findings

/-- The finds up to a position, in the order of discovery. -/
def findsUpTo (last : Nat) (findings : Findings) : List (Place × Provenance) :=
  findings.finds.filter fun find => find.1.position ≤ last

variable {network : Network} {start start' : Nat} {input input' : List Token}
  {findings other later : Findings} {position last : Nat} {token : Token}

/-- Finds further behind make no difference. -/
theorem Adds.findsUpTo_eq (adds : findings.Adds (last < ·) later) :
    later.findsUpTo last = findings.findsUpTo last := by
  obtain ⟨new, same, behind⟩ := adds
  have none : (new.filter fun find => find.1.position ≤ last) = [] := by
    refine List.filter_eq_nil_iff.2 ?_
    intro find member
    have further := behind find member
    simp only [decide_eq_true_eq]
    omega
  rw [findsUpTo, same, List.filter_append, none, List.append_nil, findsUpTo]

/-! ## Where a sweep adds finds -/

/-- When a closed position is left, finds are added at the next one only. -/
theorem Linked.adds_leave (linked : findings.Linked network start input)
    (read : input[position]? = some token) :
    findings.Adds (· = position + 1) (findings.leave network position token) := by
  obtain ⟨scanning, -⟩ := linked.scanAll_scanning read
  exact (Scanning.adds scanning).trans (.of_finds_eq (finds_note _ rfl))

/-- A visit adds finds at its position and the next one. -/
theorem Swept.adds_visit (swept : findings.Swept network start input position)
    (read : input[position]? = some token) :
    findings.Adds (position ≤ ·) (findings.visit network position token) := by
  obtain ⟨linked, closing, -⟩ := swept.close
  have closed : findings.Adds (position ≤ ·) (findings.close network position) :=
    (Closing.adds closing).mono fun _ here => Nat.le_of_eq here.symm
  have left : (findings.close network position).Adds (position ≤ ·)
      (findings.visit network position token) :=
    (linked.adds_leave read).mono fun _ next => by omega
  exact closed.trans left

/-- **A sweep adds no finds in front of the position from which it goes on.** -/
theorem Swept.adds_sweep {rest : List Token} (swept : findings.Swept network start input position)
    (unread : input.drop position = rest) :
    findings.Adds (position ≤ ·) (findings.sweep network position rest) :=
  swept.sweep_invariant (findings.Adds (position ≤ ·)) unread
    (fun _ _ _ behind swept read before => before.trans
      ((swept.adds_visit read).mono fun _ further => Nat.le_trans behind further))
    (.of_finds_eq rfl)

/-- Once the position to which a sweep has come is closed, the sweep adds finds behind it only. -/
theorem Swept.adds_sweep_close {rest : List Token}
    (swept : findings.Swept network start input position)
    (unread : input.drop position = token :: rest) :
    (findings.close network position).Adds (position < ·)
      (findings.sweep network position (token :: rest)) := by
  obtain ⟨read, left⟩ := getElem?_and_drop_of_drop_eq_cons unread
  obtain ⟨linked, -⟩ := swept.close
  have visited : (findings.close network position).Adds (position < ·)
      (findings.visit network position token) :=
    (linked.adds_leave read).mono fun _ next => by omega
  by_cases none : (findings.visit network position token).chart.countAt (position + 1) = 0
  · rw [Findings.sweep_cons_of_eq_zero none]
    exact visited
  · rw [Findings.sweep_cons_of_ne_zero none]
    exact visited.trans ((swept.visit read).adds_sweep left)

/-! ## Sweeps over the same first tokens -/

/-- Findings that are renumbered by no change have the same finds. -/
theorem RenumberedAs.finds_eq (same : findings.RenumberedAs .refl other) :
    other.finds = findings.finds := by
  rw [same.finds, Place.renumber_refl, Provenance.renumber_refl, Prod.map_id, List.map_id]

/-- **Sweeps over the same first tokens find the same up to the position behind them.** The
induction is on these tokens: the sweeps keep in step or end together, and behind the last of them
they close the position before they go apart. -/
theorem Swept.findsUpTo_sweep {shared rest rest' : List Token} {next next' : Token}
    (swept : findings.Swept network start input position)
    (swept' : other.Swept network start' input' position)
    (same : findings.RenumberedAs .refl other)
    (unread : input.drop position = shared ++ next :: rest)
    (unread' : input'.drop position = shared ++ next' :: rest') :
    (other.sweep network position (shared ++ next' :: rest')).findsUpTo
        (position + shared.length) =
      (findings.sweep network position (shared ++ next :: rest)).findsUpTo
        (position + shared.length) := by
  have embeds := network.embeds_refl
  induction shared generalizing findings other position with
  | nil =>
    have closed := same.close Numbering.injective_refl embeds swept.linked swept'.linked position
    rw [List.length_nil, Nat.add_zero, List.nil_append, List.nil_append,
      (swept.adds_sweep_close unread).findsUpTo_eq, (swept'.adds_sweep_close unread').findsUpTo_eq,
      findsUpTo, closed.finds_eq, findsUpTo]
  | cons token shared ih =>
    obtain ⟨read, left⟩ := getElem?_and_drop_of_drop_eq_cons unread
    obtain ⟨read', left'⟩ := getElem?_and_drop_of_drop_eq_cons unread'
    have visited := same.visit Numbering.injective_refl embeds swept.linked swept'.linked position
      token
    have count := visited.countAt_eq (position + 1)
    by_cases none : (findings.visit network position token).chart.countAt (position + 1) = 0
    · rw [none] at count
      simp only [List.cons_append, Findings.sweep, none, count, if_true]
      rw [findsUpTo, visited.finds_eq, findsUpTo]
    · have some : (other.visit network position token).chart.countAt (position + 1) ≠ 0 := by
        rwa [count]
      simp only [List.cons_append, Findings.sweep, none, some, if_false]
      have later := ih (swept.visit read) (swept'.visit read') visited left left'
      rwa [Nat.add_right_comm] at later

/-- Settling the position behind the end marker adds finds there only. -/
theorem Linked.adds_settle (linked : findings.Linked network start input) (last : Nat) :
    findings.Adds (· = last + 1) (findings.settle network last) := by
  unfold settle
  split
  · exact .of_finds_eq rfl
  · exact Closing.adds (linked.close_closing (last + 1))

/-! ## What the finds up to a position determine -/

/-- An item is found at a position exactly if it is among the finds up to a later one. -/
theorem Coherent.mem_findsUpTo (coherent : findings.Coherent) (before : position ≤ last)
    {item : Item} {why : Provenance} : (⟨position, item⟩, why) ∈ findings.findsUpTo last ↔
      findings.provenance.find? ⟨position, item⟩ = some why := by
  rw [coherent.find?_eq_some_iff, findsUpTo, List.mem_filter]
  exact and_iff_left (decide_eq_true before)

/-- The finds up to a position determine the provenance of the items there. -/
theorem Coherent.find?_eq (coherent : findings.Coherent) (coherent' : other.Coherent)
    (same : other.findsUpTo last = findings.findsUpTo last) (before : position ≤ last)
    (item : Item) :
    other.provenance.find? ⟨position, item⟩ = findings.provenance.find? ⟨position, item⟩ := by
  refine Option.ext fun why => ?_
  rw [← coherent'.mem_findsUpTo before, same, coherent.mem_findsUpTo before]

/-- The finds up to a position determine the items there. -/
theorem Coherent.itemsAt_eq (coherent : findings.Coherent) (coherent' : other.Coherent)
    (same : other.findsUpTo last = findings.findsUpTo last) (before : position ≤ last) :
    other.chart.itemsAt position = findings.chart.itemsAt position := by
  have here : ∀ findings : Findings,
      (findings.finds.filter fun find => find.1.position = position) =
        (findings.findsUpTo last).filter fun find => find.1.position = position := by
    intro findings
    rw [findsUpTo, List.filter_filter]
    refine List.filter_congr ?_
    intro find _
    by_cases same : find.1.position = position
    · simp [same, before]
    · simp [same]
  refine Enumeration.ext_toList ?_
  rw [coherent.listing, coherent'.listing, here, here, same]

/-- The finds up to a position determine whether the chart reaches it, and with what items. -/
theorem Linked.set?_eq (linked : findings.Linked network start input) (filled : findings.Filled)
    (linked' : other.Linked network start' input') (filled' : other.Filled)
    (same : other.findsUpTo last = findings.findsUpTo last) (before : position ≤ last) :
    other.chart.set? position = findings.chart.set? position := by
  have items := linked.coherent.itemsAt_eq linked'.coherent same before
  have reaches : position < other.chart.size ↔ position < findings.chart.size := by
    rw [linked.lt_size_iff filled, linked'.lt_size_iff filled']
    unfold Has
    rw [items]
  simp only [Chart.set?_eq_ite, items, reaches]

end Findings

/-! ## Runs -/

/-- What an observer is told of a find agrees for inputs that agree in front of its position. -/
theorem Legal.toldOf?_congr {network : Network} {start : Nat} {input input' : List Token}
    {graph : StackGraph} {place : Place} {why : Provenance}
    (legal : Legal network start input graph place why) {last : Nat}
    (before : place.position ≤ last) (agree : input.take last = input'.take last) :
    Occurrence.toldOf? input'.toArray (place, why) =
      Occurrence.toldOf? input.toArray (place, why) := by
  cases legal with
  | seed => rfl
  | epsilon => rfl
  | predict => rfl
  | complete => rfl
  | @scan position target prev matcher token =>
    -- the token scanned is in front of the position of the find
    have inside : position < last := before
    have same : input'[position]? = input[position]? := by
      rw [← List.getElem?_take_of_lt inside, ← agree, List.getElem?_take_of_lt inside]
    simp [Occurrence.toldOf?, Occurrence.noticeOfFind?, tokenAt, same]

/-- An observer is told of a find as a step at its position, if at all. -/
theorem isStepUpTo_of_toldOf? {input : Array Token} {find : Place × Provenance} {notice : Notice}
    (told : Occurrence.toldOf? input find = some notice) (last : Nat) :
    notice.isStepUpTo last = decide (find.1.position ≤ last) := by
  obtain ⟨place, why⟩ := find
  cases why with
  | seed => cases told
  | epsilon => cases told
  | predict =>
    cases told
    rfl
  | complete =>
    cases told
    rfl
  | scan =>
    cases told
    rfl

namespace Network

variable {network : Network} {startRule : Nat} {rule : Rule} {tokens tokens' : List Token}
  {last : Nat}

/-- An input goes on behind the first tokens in front of its end marker. -/
theorem exists_inputOf_eq (tokens : List Token) (last : Nat) :
    ∃ next rest, inputOf tokens = (beforeEndMarker tokens).take last ++ next :: rest := by
  have more : (beforeEndMarker tokens).drop last ++ [Token.endMarker] ≠ [] := by simp
  obtain ⟨next, rest, same⟩ := List.exists_cons_of_ne_nil more
  refine ⟨next, rest, ?_⟩
  rw [← same, ← List.append_assoc, List.take_append_drop, inputOf]

/-- Settling and the verdict leave the finds up to a position in front of the end marker alone. -/
theorem findsUpTo_recognitionFrom (known : network.rule? startRule = some rule)
    (long : last ≤ (beforeEndMarker tokens).length) :
    (network.recognitionFrom startRule rule tokens).findings.findsUpTo last =
      ((Findings.seeded rule tokens).sweep network 0 (inputOf tokens)).findsUpTo last := by
  have seeded := network.swept_seeded known tokens
  have swept := seeded.sweep List.drop_zero (Nat.zero_le _)
  have behind : ((Findings.seeded rule tokens).sweep network 0 (inputOf tokens)).Adds (last < ·)
      (network.settledFrom rule tokens) :=
    (swept.linked.adds_settle _).mono fun _ here => by omega
  rw [← behind.findsUpTo_eq, findings_recognitionFrom, Findings.findsUpTo,
    Findings.finds_noteVerdict, Findings.findsUpTo]

/-- **What a run finds up to a position depends on the tokens in front of it only.** -/
theorem findsUpTo_eq (known : network.rule? startRule = some rule)
    (long : last ≤ (beforeEndMarker tokens).length)
    (long' : last ≤ (beforeEndMarker tokens').length)
    (agree : (beforeEndMarker tokens).take last = (beforeEndMarker tokens').take last) :
    (network.recognitionFrom startRule rule tokens').findings.findsUpTo last =
      (network.recognitionFrom startRule rule tokens).findings.findsUpTo last := by
  have seeded := network.swept_seeded known tokens
  have seeded' := network.swept_seeded known tokens'
  have same : (Findings.seeded rule tokens).RenumberedAs .refl (Findings.seeded rule tokens') :=
    Findings.renumberedAs_seeded Numbering.injective_refl rfl tokens tokens'
  obtain ⟨next, rest, input⟩ := exists_inputOf_eq tokens last
  obtain ⟨next', rest', input'⟩ := exists_inputOf_eq tokens' last
  rw [← agree] at input'
  have swept := seeded.findsUpTo_sweep seeded' same (List.drop_zero.trans input)
    (List.drop_zero.trans input')
  rw [List.length_take_of_le long, Nat.zero_add, ← input, ← input'] at swept
  rw [findsUpTo_recognitionFrom known long, findsUpTo_recognitionFrom known long', swept]

/-- What an observer is told of the steps up to a position are the finds up to there. -/
theorem filter_notices_recognitionFrom (known : network.rule? startRule = some rule)
    (tokens : List Token) (last : Nat) :
    let recognition := network.recognitionFrom startRule rule tokens
    recognition.notices.filter (Notice.isStepUpTo last) =
      (recognition.findings.findsUpTo last).filterMap
        (Occurrence.toldOf? recognition.input) := by
  have notices := network.notices_recognitionFrom known tokens
  generalize network.recognitionFrom startRule rule tokens = recognition at *
  dsimp only at notices ⊢
  have verdict : [recognition.verdict].filter (Notice.isStepUpTo last) = [] := by
    unfold Recognition.verdict
    cases recognition.accepting <;> rfl
  rw [notices, List.filter_append, verdict, List.append_nil, List.filter_filterMap,
    Findings.findsUpTo, List.filterMap_filter]
  refine List.filterMap_congr ?_
  intro find _
  cases told : Occurrence.toldOf? recognition.input find with
  | none => simp
  | some notice => simp [Option.filter, isStepUpTo_of_toldOf? told]

/-- **The chart is built online.** If the tokens of two inputs in front of their end markers agree
up to a position, and neither ends before it, the runs on them agree up to there: both charts have a
set at a position, with the same items in the same order, or neither has; the items have the same
provenance; and an observer is told the same of the steps up to there. -/
theorem recognition_online (network : Network) {startRule : Nat} {rule : Rule}
    (known : network.rule? startRule = some rule) {tokens tokens' : List Token} {last : Nat}
    (long : last ≤ (beforeEndMarker tokens).length)
    (long' : last ≤ (beforeEndMarker tokens').length)
    (agree : (beforeEndMarker tokens).take last = (beforeEndMarker tokens').take last) :
    ∃ recognition other, network.recognition startRule tokens = .ok recognition ∧
      network.recognition startRule tokens' = .ok other ∧
      (∀ position ≤ last, other.chart.set? position = recognition.chart.set? position) ∧
      (∀ position ≤ last, ∀ item, other.findings.provenance.find? ⟨position, item⟩ =
        recognition.findings.provenance.find? ⟨position, item⟩) ∧
      other.notices.filter (Notice.isStepUpTo last) =
        recognition.notices.filter (Notice.isStepUpTo last) := by
  have same := findsUpTo_eq known long long' agree
  obtain ⟨finished, -⟩ := network.finished_recognitionFrom known tokens
  obtain ⟨finished', -⟩ := network.finished_recognitionFrom known tokens'
  have linked := finished.linked
  have linked' := finished'.linked
  refine ⟨_, _, recognition_of_rule? known tokens, recognition_of_rule? known tokens', ?_, ?_, ?_⟩
  · intro position before
    exact linked.set?_eq (network.filled_recognitionFrom startRule rule tokens) linked'
      (network.filled_recognitionFrom startRule rule tokens') same before
  · intro position before item
    exact linked.coherent.find?_eq linked'.coherent same before item
  · rw [filter_notices_recognitionFrom known tokens, filter_notices_recognitionFrom known tokens',
      same]
    refine List.filterMap_congr ?_
    rintro ⟨place, why⟩ member
    obtain ⟨found, before⟩ := List.mem_filter.1 member
    have inputs : (inputOf tokens).take last = (inputOf tokens').take last := by
      rw [inputOf, inputOf, List.take_append_of_le_length long, List.take_append_of_le_length long',
        agree]
    exact (linked.legal place why found).toldOf?_congr (of_decide_eq_true before) inputs

/-- On a seven and on a seven with more behind it the sample finds the same up to the first token,
and an observer is told the same of it. -/
theorem recognition_online_doubling :
    ∃ recognition other, doubling.recognition 0 [7] = .ok recognition ∧
      doubling.recognition 0 [7, 8, 7] = .ok other ∧
      other.chart.set? 1 = recognition.chart.set? 1 ∧
      other.notices.filter (Notice.isStepUpTo 1) =
        recognition.notices.filter (Notice.isStepUpTo 1) := by
  have known : doubling.rule? 0 = some ⟨"S", 0, 1⟩ := rfl
  have long : 1 ≤ (beforeEndMarker [7]).length := by decide
  have long' : 1 ≤ (beforeEndMarker [7, 8, 7]).length := by decide
  have agree : (beforeEndMarker [7]).take 1 = (beforeEndMarker [7, 8, 7]).take 1 := by decide
  obtain ⟨recognition, other, ran, ran', sets, -, notices⟩ :=
    recognition_online doubling known long long' agree
  exact ⟨recognition, other, ran, ran', sets 1 (Nat.le_refl 1), notices⟩

end Network

end TransitionNetworks
