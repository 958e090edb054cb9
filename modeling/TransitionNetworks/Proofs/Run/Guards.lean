import TransitionNetworks.Parsing.Guarded
import TransitionNetworks.Proofs.Run.Sweep

/-! # Guarded runs never stop

Linked findings have items in states of their network only, so a step from an item found is not
stopped (`Findings.Linked.guard_eq`). Closing and scanning keep findings linked, hence no loop of a
guarded run is stopped either, and each comes to what the loop without a guard comes to. That is
shown loop by loop, with the findings linked at each turn.

So a guarded run is the run (`Network.guardedRecognition_eq`), and a guarded parse gives the tree of
the parse or fails as it does (`Network.guardedParse_eq`). -/

namespace TransitionNetworks

namespace Findings

variable {network : Network} {start : Nat} {input : List Token} {findings : Findings}
  {position : Nat} {item : Item} {token : Token}

/-- **A step from an item found is not stopped.** -/
theorem Linked.guard_eq (linked : findings.Linked network start input)
    (found : findings.Has position item) (step : Findings → Findings) :
    findings.guard network item step = .ok (step findings) := by
  obtain ⟨state, here⟩ := linked.inState position item found
  simp only [guard, here]

/-- Expanding items from a cursor on is not stopped. -/
theorem Linked.guardedExpandFrom_eq (linked : findings.Linked network start input)
    (fuel cursor : Nat) : findings.guardedExpandFrom network position fuel cursor =
      .ok (findings.expandFrom network position fuel cursor) := by
  induction fuel generalizing findings cursor with
  | zero => rfl
  | succ fuel ih =>
    rw [guardedExpandFrom, expandFrom]
    cases here : findings.chart.item? position cursor with
    | none => rfl
    | some item =>
      have found : findings.Has position item := Enumeration.mem_iff_exists_get?.2 ⟨cursor, here⟩
      have expanded := linked.closing (linked.expand_closing found)
      simp only [linked.guard_eq found]
      exact ih expanded (cursor + 1)

/-- Closing a position is not stopped. -/
theorem Linked.guardedClose_eq (linked : findings.Linked network start input) (position : Nat) :
    findings.guardedClose network position = .ok (findings.close network position) :=
  linked.guardedExpandFrom_eq _ 0

/-- Scanning a token from items found, one after the other, is not stopped. -/
theorem Linked.foldlM_guard_scan (linked : findings.Linked network start input)
    (read : input[position]? = some token) (items : List Item)
    (found : ∀ item ∈ items, findings.Has position item) :
    items.foldlM (fun findings item =>
        findings.guard network item (·.scan network position token item)) findings =
      .ok (items.foldl (fun findings item => findings.scan network position token item)
        findings) := by
  induction items generalizing findings with
  | nil => rfl
  | cons item rest ih =>
    have here := found item (List.mem_cons_self ..)
    have scanning := (linked.scan_scanning here token).1
    rw [List.foldlM_cons, linked.guard_eq here]
    -- the items still to be scanned from stay where they were found
    exact ih (linked.scanning read scanning) fun other member =>
      (Scanning.grows scanning).has (found other (List.mem_cons_of_mem _ member))

/-- Scanning the token at a position is not stopped. -/
theorem Linked.guardedScanAll_eq (linked : findings.Linked network start input)
    (read : input[position]? = some token) :
    findings.guardedScanAll network position token =
      .ok (findings.scanAll network position token) := by
  have all := linked.foldlM_guard_scan read (findings.chart.itemsAt position).toList
    fun item found => found
  rwa [Enumeration.toList, Array.foldlM_toList, Array.foldl_toList] at all

/-- Visiting the position that a sweep has come to is not stopped. -/
theorem Swept.guardedVisit_eq (swept : findings.Swept network start input position)
    (read : input[position]? = some token) :
    findings.guardedVisit network position token = .ok (findings.visit network position token) := by
  have closed := swept.linked.closing (swept.linked.close_closing position)
  rw [guardedVisit, swept.linked.guardedClose_eq]
  simp only [bind, Except.bind, closed.guardedScanAll_eq read]
  rfl

/-- **A sweep is not stopped.** -/
theorem Swept.guardedSweep_eq {rest : List Token}
    (swept : findings.Swept network start input position) (unread : input.drop position = rest) :
    findings.guardedSweep network position rest = .ok (findings.sweep network position rest) := by
  induction rest generalizing findings position with
  | nil => rfl
  | cons token rest ih =>
    obtain ⟨read, left⟩ := getElem?_and_drop_of_drop_eq_cons unread
    rw [guardedSweep, swept.guardedVisit_eq read]
    by_cases none : (findings.visit network position token).chart.countAt (position + 1) = 0
    · rw [sweep_cons_of_eq_zero none]
      simp only [bind, Except.bind, none, if_true]
      rfl
    · rw [sweep_cons_of_ne_zero none]
      simp only [bind, Except.bind, none, if_false]
      exact ih (swept.visit read) left

/-- Settling the last position is not stopped. -/
theorem Linked.guardedSettle_eq (linked : findings.Linked network start input) (last : Nat) :
    findings.guardedSettle network last = .ok (findings.settle network last) := by
  unfold guardedSettle settle
  split
  · rfl
  · exact linked.guardedClose_eq _

end Findings

namespace Network

/-- **A guarded run is the run.** It fails for a start rule that does not exist and for nothing
else, so no item is ever found in a state that is not there. -/
theorem guardedRecognition_eq (network : Network) (startRule : Nat) (tokens : List Token) :
    network.guardedRecognition startRule tokens =
      (network.recognition startRule tokens).mapError fun fault =>
        .parse (.missingStartRule fault) := by
  rw [guardedRecognition, recognition]
  cases known : network.rule? startRule with
  | none => rfl
  | some rule =>
    have seeded := network.swept_seed known tokens (inputOf tokens) (beforeEndMarker tokens).length
    have swept := seeded.sweep List.drop_zero (Nat.zero_le _)
    have sweeps := seeded.guardedSweep_eq List.drop_zero
    have settles := swept.linked.guardedSettle_eq (beforeEndMarker tokens).length
    unfold inputOf at sweeps settles
    simp only [guardedRecognitionFrom, sweeps, bind, Except.bind, settles]
    rfl

/-- **A guarded parse is the parse.** -/
theorem guardedParse_eq (network : Network) (startRule : Nat) (tokens : List Token) :
    network.guardedParse startRule tokens =
      (network.parse startRule tokens).mapError .parse := by
  rw [guardedParse, guardedRecognition_eq, parse]
  cases network.recognition startRule tokens <;> rfl

variable {network : Network} {startRule : Nat} {tokens : List Token}

/-- A run that succeeds is a guarded run. -/
theorem guardedRecognition_of_recognition {recognition : Recognition}
    (ran : network.recognition startRule tokens = .ok recognition) :
    network.guardedRecognition startRule tokens = .ok recognition := by
  rw [guardedRecognition_eq, ran]
  rfl

/-- What is parsed is parsed by a guarded run. -/
theorem guardedParse_of_parse {tree : Option ParseTree}
    (parsed : network.parse startRule tokens = .ok tree) :
    network.guardedParse startRule tokens = .ok tree := by
  rw [guardedParse_eq, parsed]
  rfl

end Network

end TransitionNetworks
