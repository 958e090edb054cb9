import TransitionNetworks.Proofs.Run.Counts
import TransitionNetworks.Proofs.Run.Records

/-! # The order of discovery

Closing a position adds finds at that position only, and scanning its token at the next one only
(`Findings.Adds`). So a run finds its items position by position, from left to right
(`Findings.InOrder`), and what it finds is what the chart lists, read position by position.

What an observer is told are the finds and, at the very end, the verdict
(`Network.notices_recognitionFrom`): whatever else a run notes on the way, an observer is not told
(`Findings.Undecided`). -/

namespace TransitionNetworks

/-! ## Lists in the order of a rank -/

section

variable {α : Type} {rank : α → Nat} {elements : List α}

/-- In the order of a rank, the elements of the last rank come behind all others. -/
theorem filter_lt_append_filter_eq
    (inOrder : elements.Pairwise fun first second => rank first ≤ rank second) {last : Nat}
    (atMost : ∀ x ∈ elements, rank x ≤ last) :
    (elements.filter fun x => rank x < last) ++ (elements.filter fun x => rank x = last) =
      elements := by
  induction elements with
  | nil => rfl
  | cons first rest ih =>
    obtain ⟨least, inOrder⟩ := List.pairwise_cons.1 inOrder
    obtain ⟨atMostFirst, atMost⟩ := List.forall_mem_cons.1 atMost
    have both := ih inOrder atMost
    by_cases here : rank first = last
    · -- nothing of a lower rank comes behind an element of the last one
      have none : (rest.filter fun x => rank x < last) = [] := by
        refine List.filter_eq_nil_iff.2 ?_
        intro x member
        have above := least x member
        simp only [decide_eq_true_eq]
        omega
      rw [none, List.nil_append] at both
      simp [here, none, both]
    · have before : rank first < last := by omega
      simp [here, before, both]

/-- A list in the order of a rank is its elements of the first rank, then those of the second, and
so on. -/
theorem flatMap_filter_eq_self
    (inOrder : elements.Pairwise fun first second => rank first ≤ rank second) {bound : Nat}
    (below : ∀ x ∈ elements, rank x < bound) :
    ((List.range bound).flatMap fun n => elements.filter fun x => rank x = n) = elements := by
  induction bound generalizing elements with
  | zero =>
    cases elements with
    | nil => rfl
    | cons first rest => exact absurd (below first (List.mem_cons_self ..)) (Nat.not_lt_zero _)
  | succ last ih =>
    have earlier := ih (inOrder.filter fun x => rank x < last) (by simp)
    have ranks : ∀ n ∈ List.range last,
        ((elements.filter fun x => rank x < last).filter fun x => rank x = n) =
          elements.filter fun x => rank x = n := by
      intro n member
      have before : n < last := List.mem_range.1 member
      rw [List.filter_filter]
      refine List.filter_congr ?_
      intro x _
      by_cases here : rank x = n
      · simp [here, before]
      · simp [here]
    rw [List.flatMap_congr ranks] at earlier
    rw [List.range_succ, List.flatMap_append, List.flatMap_singleton, earlier]
    exact filter_lt_append_filter_eq inOrder fun x member => Nat.lt_succ_iff.1 (below x member)

end

/-- What an observer is told of a find. -/
def Occurrence.toldOf? (input : Array Token) (find : Place × Provenance) : Option Notice :=
  noticeOfFind? input find.1.position find.1.item find.2

namespace Findings

/-! ## Where finds are added -/

/-- **Later findings add finds** at certain positions only. -/
def Adds (positions : Nat → Prop) (findings later : Findings) : Prop :=
  ∃ new, later.finds = findings.finds ++ new ∧ ∀ find ∈ new, positions find.1.position

variable {network : Network} {start : Nat} {input : List Token} {positions : Nat → Prop}
  {findings later latest : Findings} {position : Nat} {token : Token}

/-- Findings with the same finds add none. -/
theorem Adds.of_finds_eq (same : later.finds = findings.finds) : findings.Adds positions later :=
  ⟨[], by rw [same, List.append_nil], fun _ none => absurd none List.not_mem_nil⟩

/-- Finds are added in parts. -/
theorem Adds.trans (first : findings.Adds positions later) (second : later.Adds positions latest) :
    findings.Adds positions latest := by
  obtain ⟨new, same, inside⟩ := first
  obtain ⟨newer, same', inside'⟩ := second
  refine ⟨new ++ newer, by rw [same', same, List.append_assoc], ?_⟩
  intro find member
  exact (List.mem_append.1 member).elim (inside find) (inside' find)

/-- Finds at certain positions are finds at any wider choice of positions. -/
theorem Adds.mono {others : Nat → Prop} (wider : ∀ position, positions position → others position)
    (adds : findings.Adds positions later) : findings.Adds others later := by
  obtain ⟨new, same, inside⟩ := adds
  exact ⟨new, same, fun find member => wider _ (inside find member)⟩

/-- Finding an item adds a find at its position, or none. -/
theorem adds_discover (findings : Findings) (position : Nat) (item : Item) (why : Provenance) :
    findings.Adds (· = position) (findings.discover position item why) := by
  have finds := findings.finds_discover position item why
  split at finds
  · exact .of_finds_eq finds
  · exact ⟨_, finds, List.forall_mem_singleton.2 rfl⟩

end Findings

section

variable {network : Network} {findings later : Findings} {position : Nat} {token : Token}

/-- Closing a position adds finds there only. -/
theorem ClosingStep.adds (step : ClosingStep network position findings later) :
    findings.Adds (· = position) later := by
  refine step.preserves (findings.Adds (· = position)) ?_ ?_ ?_ (.of_finds_eq rfl)
  · intro before item why adds
    exact adds.trans (before.adds_discover position item why)
  · intro before graph adds
    exact adds.trans (.of_finds_eq rfl)
  · intro before stop rule called adds
    exact adds.trans (.of_finds_eq (Findings.finds_note before rfl))

/-- Closing a position adds finds there only. -/
theorem Closing.adds (steps : Closing network position findings later) :
    findings.Adds (· = position) later := by
  induction steps with
  | refl => exact .of_finds_eq rfl
  | tail _ step ih => exact ih.trans step.adds

/-- Scanning a token adds finds behind it only. -/
theorem Scanning.adds (steps : Scanning network position token findings later) :
    findings.Adds (· = position + 1) later := by
  induction steps with
  | refl => exact .of_finds_eq rfl
  | tail _ step ih =>
    cases step with
    | scan => exact ih.trans (Findings.adds_discover _ _ _ _)

end

namespace Findings

variable {network : Network} {start : Nat} {input : List Token} {findings later : Findings}
  {position : Nat} {token : Token}

/-- **Finds in order** are those at the first position, then those at the second, and so on. -/
def InOrder (findings : Findings) : Prop :=
  findings.finds.Pairwise fun first second => first.1.position ≤ second.1.position

/-- Finds at one position that is not in front of any other find keep the order. -/
theorem InOrder.adds (inOrder : findings.InOrder) (adds : findings.Adds (· = position) later)
    (bounded : ∀ find ∈ findings.finds, find.1.position ≤ position) : later.InOrder := by
  obtain ⟨new, same, here⟩ := adds
  rw [InOrder, same, List.pairwise_append]
  refine ⟨inOrder, ?_, ?_⟩
  · refine List.pairwise_of_forall_mem_list ?_
    intro first member second member'
    rw [here first member, here second member']
  · intro first member second member'
    rw [here second member']
    exact bounded first member

/-- The finds are where the items are. -/
theorem Coherent.position_le (coherent : findings.Coherent)
    (bounded : ∀ other item, findings.Has other item → other ≤ position) :
    ∀ find ∈ findings.finds, find.1.position ≤ position := by
  intro find member
  exact bounded _ _ (coherent.has_of_mem member)

/-- Closing the position that a sweep has come to keeps the order. -/
theorem Swept.inOrder_close (swept : findings.Swept network start input position)
    (inOrder : findings.InOrder) : (findings.close network position).InOrder :=
  inOrder.adds (Closing.adds (swept.linked.close_closing position))
    (swept.linked.coherent.position_le swept.bounded)

/-- A visit keeps the order. -/
theorem Swept.inOrder_visit (swept : findings.Swept network start input position)
    (read : input[position]? = some token) (inOrder : findings.InOrder) :
    (findings.visit network position token).InOrder := by
  obtain ⟨linked, closing, -⟩ := swept.close
  obtain ⟨scanning, -⟩ := linked.scanAll_scanning read
  have bounded : ∀ other item, (findings.close network position).Has other item →
      other ≤ position + 1 := by
    intro other item found
    by_cases here : other = position
    · omega
    · have before := swept.bounded other item ((Closing.has_iff closing here item).1 found)
      omega
  have scanned := (swept.inOrder_close inOrder).adds (Scanning.adds scanning)
    (linked.coherent.position_le bounded)
  unfold InOrder at scanned ⊢
  rwa [Findings.visit, finds_note _ rfl]

/-! ## What an observer is told -/

/-- **Nothing is decided yet:** what has been noted beside the finds an observer is not told. -/
def Undecided (findings : Findings) : Prop :=
  ∀ occurrence ∈ findings.history.toList, occurrence.find? = none →
    ∀ input, occurrence.notice? input = none

/-- The verdict is no find. -/
@[simp] theorem finds_noteVerdict (accepting : Option Place) (last : Nat) (findings : Findings) :
    (findings.noteVerdict accepting last).finds = findings.finds := by
  cases accepting with
  | none => exact finds_note findings rfl
  | some place => exact finds_note findings rfl

/-- A run begins with the find of its seed. -/
theorem finds_seeded (rule : Rule) (tokens : List Token) :
    (seeded rule tokens).finds = [(⟨0, ⟨rule.start, 0, emptyStack⟩⟩, .seed)] := by
  have fresh : ¬ initial.chart.contains 0 ⟨rule.start, 0, emptyStack⟩ = true :=
    fun known => not_has_initial 0 _ ((has_iff_contains _ _ _).2 known)
  unfold seeded noteIgnored
  dsimp only
  split
  · rw [finds_discover, if_neg fresh]
    rfl
  · rw [finds_discover, chart_note, if_neg fresh, finds_note _ rfl]
    rfl

/-- As long as nothing is decided, an observer is told of the finds and of nothing else. -/
theorem Undecided.notices_eq (undecided : findings.Undecided) (input : Array Token) :
    findings.history.toList.filterMap (Occurrence.notice? input) =
      findings.finds.filterMap (Occurrence.toldOf? input) := by
  rw [finds, List.filterMap_filterMap]
  refine List.filterMap_congr ?_
  intro occurrence member
  cases occurrence with
  | found position item why => rfl
  | ignored | strayStop | surveyed | accepted | rejected => exact undecided _ member rfl input

end Findings

namespace Network

/-- **Up to its verdict a run finds in order and decides nothing.** -/
theorem inOrder_settledFrom (network : Network) {startRule : Nat} {rule : Rule}
    (known : network.rule? startRule = some rule) (tokens : List Token) :
    (network.settledFrom rule tokens).InOrder ∧ (network.settledFrom rule tokens).Undecided := by
  have seeded := network.swept_seeded known tokens
  have first : (Findings.seeded rule tokens).InOrder := by
    rw [Findings.InOrder, Findings.finds_seeded]
    exact List.pairwise_singleton _ _
  have swept := seeded.sweep List.drop_zero (Nat.zero_le _)
  have inOrder := seeded.sweep_invariant Findings.InOrder List.drop_zero
    (fun _ _ _ _ swept read before => swept.inOrder_visit read before) first
  -- an observer is told of no note that a run makes on its way
  have undecided : (network.settledFrom rule tokens).Undecided := by
    refine network.records_settledFrom known tokens ⟨?_, ?_, ?_⟩ ?_
    · exact fun _ _ _ => nofun
    all_goals
      intros
      rfl
  refine ⟨?_, undecided⟩
  unfold settledFrom Findings.settle
  rw [← length_inputOf]
  split
  · exact inOrder
  · exact swept.inOrder_close inOrder

/-- A run finds in order. -/
theorem inOrder_recognitionFrom (network : Network) {startRule : Nat} {rule : Rule}
    (known : network.rule? startRule = some rule) (tokens : List Token) :
    (network.recognitionFrom startRule rule tokens).findings.InOrder := by
  obtain ⟨inOrder, -⟩ := network.inOrder_settledFrom known tokens
  rw [findings_recognitionFrom]
  unfold Findings.InOrder at inOrder ⊢
  rwa [Findings.finds_noteVerdict]

end Network

/-- What an observer is told of how a run ended. -/
def Recognition.verdict (recognition : Recognition) : Notice :=
  match recognition.accepting with
  | some place => .accept place.position place.item
  | none => .reject recognition.endPosition

/-- **An observer is told of the finds in the order of discovery, and then of the verdict.** -/
theorem Network.notices_recognitionFrom (network : Network) {startRule : Nat} {rule : Rule}
    (known : network.rule? startRule = some rule) (tokens : List Token) :
    let recognition := network.recognitionFrom startRule rule tokens
    recognition.notices =
      recognition.findings.finds.filterMap (Occurrence.toldOf? recognition.input) ++
        [recognition.verdict] := by
  intro recognition
  obtain ⟨-, undecided⟩ := network.inOrder_settledFrom known tokens
  have findings : recognition.findings = (network.settledFrom rule tokens).noteVerdict
    recognition.accepting (beforeEndMarker tokens).length :=
    network.findings_recognitionFrom startRule rule tokens
  have last : recognition.endPosition = (beforeEndMarker tokens).length := by
    simp [recognition, Recognition.endPosition, recognitionFrom]
  rw [Recognition.notices, findings, Findings.finds_noteVerdict, Recognition.verdict, last,
    ← undecided.notices_eq]
  cases recognition.accepting with
  | none => simp [Findings.noteVerdict, Findings.note, Occurrence.notice?]
  | some place => simp [Findings.noteVerdict, Findings.note, Occurrence.notice?]

end TransitionNetworks
