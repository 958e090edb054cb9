import TransitionNetworks.Proofs.Bounds
import TransitionNetworks.Proofs.Saturation

/-! # What a run notes

Beside its finds a run notes what is worth a line (`Findings.notes`). Closing a position notes the
stray stops among its items (`Findings.straysAt`), in the order in which the items are listed, since
the closing loop comes to every item once (`ClosingLoop.notes_eq`). Scanning notes nothing, and then
the position is surveyed.

A sweep is done with a position when it goes on, so the stray stops and the counts in the chart of
the sweep (`Findings.survey`) are those noted on the way (`Findings.Swept.notes_sweep`): a position
that is closed gets no items, and the next one has those found by scanning only. -/

namespace TransitionNetworks

/-- Whether an item was found by scanning a token. -/
def Provenance.isScan : Provenance → Bool
  | scan _ _ => true
  | _ => false

/-- **A stray stop:** an item in which a rule stops inside a call of another rule. -/
def Network.strayStop? (network : Network) (graph : StackGraph) (item : Item) :
    Option Occurrence :=
  match (network.state? item.state).bind State.stopRule?, graph.frame? item.stack with
  | some rule, some frame =>
    if frame.rule = rule then none else some (.strayStop item rule frame.rule)
  | _, _ => none

namespace Findings

/-- What is noted beside the finds, in order. -/
def notes (findings : Findings) : List Occurrence :=
  findings.history.toList.filter fun occurrence => occurrence.find?.isNone

/-- The stray stops among the items of a position, in the order in which they are listed. -/
def straysAt (network : Network) (position : Nat) (findings : Findings) : List Occurrence :=
  (findings.chart.itemsAt position).toList.filterMap (network.strayStop? findings.stackGraph)

/-- The finds at a position by scanning. -/
def scannedAt (position : Nat) (findings : Findings) : List (Place × Provenance) :=
  findings.finds.filter fun find => find.1.position = position && find.2.isScan

/-- The survey of a position: how many items it has, and how many of the next were scanned. -/
def survey (position : Nat) (findings : Findings) : Occurrence :=
  .surveyed position (findings.chart.countAt position) (findings.scannedAt (position + 1)).length

variable {network : Network} {start : Nat} {input : List Token} {findings later : Findings}
  {position : Nat} {item : Item} {token : Token}

/-! ## What single operations note -/

/-- Something noted that is no find is among the notes. -/
theorem notes_note (findings : Findings) {occurrence : Occurrence}
    (noFind : occurrence.find? = none) :
    (findings.note occurrence).notes = findings.notes ++ [occurrence] := by
  simp [notes, note, noFind]

/-- A find is no note. -/
@[simp] theorem notes_discover (findings : Findings) (position : Nat) (item : Item)
    (why : Provenance) : (findings.discover position item why).notes = findings.notes := by
  rcases findings.history_discover_eq_or position item why with same | found
  · rw [notes, same, notes]
  · rw [notes, found]
    simp [notes, note, Occurrence.find?]

/-- Returns leave the notes alone. -/
@[simp] theorem notes_returnAll (findings : Findings) (position : Nat) (frame : Frame)
    (returns : List (Item × Item)) :
    (findings.returnAll position frame returns).notes = findings.notes := by
  induction returns generalizing findings with
  | nil => rfl
  | cons pair rest ih => rw [returnAll_cons, ih, returnTo, notes_discover]

/-- A prediction leaves the notes alone. -/
@[simp] theorem notes_predict (findings : Findings) (position start follow rule : Nat)
    (caller : Item) :
    (findings.predict position start follow rule caller).notes = findings.notes := by
  rw [predict_eq start ⟨follow, rule, position⟩, notes_returnAll, enter, notes_discover]
  rfl

/-- Remembering an empty return leaves the notes alone. -/
@[simp] theorem notes_remember (findings : Findings) (position : Nat) (frame : Frame)
    (stop : Item) : (findings.remember position frame stop).notes = findings.notes := by
  unfold remember
  split
  · rfl
  · rfl

/-- Following a transition notes nothing. -/
@[simp] theorem notes_follow (findings : Findings) (position : Nat) (item : Item)
    (transition : Transition) :
    (findings.follow position item transition).notes = findings.notes := by
  cases transition with
  | terminal => rfl
  | call => exact notes_predict _ _ _ _ _ _
  | epsilon => exact notes_discover _ _ _ _

/-- Expanding an item notes it if it is a stray stop. -/
theorem notes_expand (network : Network) (position : Nat) (item : Item) (findings : Findings) :
    (findings.expand network position item).notes =
      findings.notes ++ (network.strayStop? findings.stackGraph item).toList := by
  cases here : network.state? item.state with
  | none => simp [expand, Network.strayStop?, here]
  | some state =>
    cases stop : state.stopRule? with
    | none =>
      have none : network.strayStop? findings.stackGraph item = none := by
        simp [Network.strayStop?, here, stop]
      rw [expand_eq_foldl here stop, none, Option.toList_none, List.append_nil]
      exact List.foldlRecOn (motive := fun later => later.notes = findings.notes)
        state.transitions _ rfl fun later same transition _ =>
          (notes_follow later position item transition).trans same
    | some rule =>
      rw [expand_eq_complete here stop]
      cases framed : findings.stackGraph.frame? item.stack with
      | none =>
        rw [complete_of_frame?_eq_none framed]
        simp [Network.strayStop?, here, stop, framed]
      | some frame =>
        by_cases same : frame.rule = rule
        · subst same
          rw [complete_eq framed, notes_returnAll, notes_remember]
          simp [Network.strayStop?, here, stop, framed]
        · rw [complete_of_ne framed same, notes_note _ rfl]
          simp [Network.strayStop?, here, stop, framed, same]

/-! ## Closing a position -/

/-- Whether an item that is found is a stray stop, later findings tell as well. -/
theorem Linked.strayStop?_eq (linked : findings.Linked network start input)
    (grown : findings.Extends later) (found : findings.Has position item) :
    network.strayStop? later.stackGraph item = network.strayStop? findings.stackGraph item := by
  have same : later.stackGraph.frame? item.stack = findings.stackGraph.frame? item.stack := by
    cases here : later.stackGraph.frame? item.stack with
    | some frame => exact (linked.frame?_eq grown found here).1.symm
    | none =>
      cases there : findings.stackGraph.frame? item.stack with
      | none => rfl
      | some frame => rw [← here, grown.frames _ _ there]
  rw [Network.strayStop?, Network.strayStop?, same]

end Findings

/-- **The closing loop notes the stray stops** among the items from its cursor on. -/
theorem ClosingLoop.notes_eq {network : Network} {start : Nat} {input : List Token}
    {findings later : Findings} {position cursor : Nat}
    (loop : ClosingLoop network position cursor findings later)
    (linked : findings.Linked network start input) :
    later.notes = findings.notes ++
      ((later.chart.itemsAt position).toList.drop cursor).filterMap
        (network.strayStop? later.stackGraph) := by
  induction loop with
  | @stop cursor findings ended =>
    have behind : (findings.chart.itemsAt position).toList.length ≤ cursor := by
      rw [← List.getElem?_eq_none_iff, Enumeration.getElem?_toList]
      exact ended
    rw [List.drop_eq_nil_of_le behind, List.filterMap_nil, List.append_nil]
  | @next cursor findings later item here rest ih =>
    have found : findings.Has position item := Enumeration.mem_iff_exists_get?.2 ⟨cursor, here⟩
    have steps := linked.expand_closing found
    have others := rest.closing (linked.closing steps)
    have grown := (Closing.grows steps).trans (Closing.grows others)
    have listed : (later.chart.itemsAt position).toList[cursor]? = some item := by
      rw [Enumeration.getElem?_toList]
      exact grown.item?_eq here
    obtain ⟨bound, same⟩ := List.getElem?_eq_some_iff.1 listed
    rw [ih (linked.closing steps), Findings.notes_expand, List.drop_eq_getElem_cons bound, same,
      List.filterMap_cons, linked.strayStop?_eq grown found]
    cases network.strayStop? findings.stackGraph item with
    | none => simp
    | some stray => simp

/-! ## Finds by scanning -/

namespace Findings

variable {network : Network} {start : Nat} {input : List Token} {findings later : Findings}
  {position : Nat} {item : Item} {token : Token}

/-- A find that is not by scanning, or elsewhere, is none by scanning at a position. -/
theorem scannedAt_discover (findings : Findings) (position other : Nat) (item : Item)
    {why : Provenance} (apart : why.isScan = false ∨ other ≠ position) :
    (findings.discover position item why).scannedAt other = findings.scannedAt other := by
  rw [scannedAt, finds_discover]
  split
  · rfl
  · rw [List.filter_append, scannedAt]
    rcases apart with other' | elsewhere
    · simp [other']
    · simp [Ne.symm elsewhere]

/-- Returns find nothing by scanning. -/
theorem scannedAt_returnAll (findings : Findings) (position other : Nat) (frame : Frame)
    (returns : List (Item × Item)) :
    (findings.returnAll position frame returns).scannedAt other = findings.scannedAt other := by
  induction returns generalizing findings with
  | nil => rfl
  | cons pair rest ih =>
    exact (ih _).trans (findings.scannedAt_discover position other _ (Or.inl rfl))

/-- Entering a call finds nothing by scanning. -/
theorem scannedAt_enter (findings : Findings) (position other start : Nat) (frame : Frame)
    (caller : Item) :
    (findings.enter position start frame caller).scannedAt other = findings.scannedAt other :=
  (findings.register frame caller).scannedAt_discover position other _ (Or.inl rfl)

/-- Remembering a stop finds nothing. -/
theorem scannedAt_remember (findings : Findings) (position other : Nat) (frame : Frame)
    (stop : Item) :
    (findings.remember position frame stop).scannedAt other = findings.scannedAt other := by
  unfold remember
  split
  · rfl
  · rfl

/-- Notes are not found by scanning. -/
theorem scannedAt_note (findings : Findings) {occurrence : Occurrence}
    (noFind : occurrence.find? = none) (other : Nat) :
    (findings.note occurrence).scannedAt other = findings.scannedAt other := by
  rw [scannedAt, finds_note findings noFind, scannedAt]

end Findings

section

variable {network : Network} {findings later : Findings} {position : Nat} {token : Token}

/-- Closing a position finds nothing by scanning. -/
theorem ClosingStep.scannedAt_eq (step : ClosingStep network position findings later)
    (other : Nat) : later.scannedAt other = findings.scannedAt other := by
  cases step with
  | @predict caller entry follow rule found offers =>
    rw [Findings.predict_eq entry ⟨follow, rule, position⟩, Findings.scannedAt_returnAll,
      Findings.scannedAt_enter]
  | epsilon => exact findings.scannedAt_discover position other _ (Or.inl rfl)
  | @complete stop rule found stops =>
    rcases Findings.complete_cases position stop rule findings with
      same | ⟨frame, -, -, returns⟩ | ⟨called, noted⟩
    · rw [same]
    · rw [returns, Findings.scannedAt_returnAll, Findings.scannedAt_remember]
    · rw [noted, Findings.scannedAt_note _ rfl]

/-- Closing a position finds nothing by scanning. -/
theorem Closing.scannedAt_eq (steps : Closing network position findings later) (other : Nat) :
    later.scannedAt other = findings.scannedAt other := by
  induction steps with
  | refl => rfl
  | tail _ step ih => rw [step.scannedAt_eq, ih]

/-- Scanning a token finds by scanning behind it only. -/
theorem Scanning.scannedAt_eq (steps : Scanning network position token findings later) {other : Nat}
    (different : other ≠ position + 1) : later.scannedAt other = findings.scannedAt other := by
  induction steps with
  | refl => rfl
  | tail _ step ih =>
    cases step with
    | scan => exact (Findings.scannedAt_discover _ _ other _ (Or.inr different)).trans ih

/-- What is found behind a token while it is scanned, is found by scanning. -/
theorem Scanning.isScan (steps : Scanning network position token findings later)
    (first : ∀ find ∈ findings.finds, find.1.position ≠ position + 1) :
    ∀ find ∈ later.finds, find.1.position = position + 1 → find.2.isScan = true := by
  induction steps with
  | refl => exact fun find member here => absurd here (first find member)
  | tail _ step ih =>
    cases step with
    | @scan item matcher target found offers accepts =>
      intro find member here
      rw [Findings.finds_discover] at member
      split at member
      · exact ih find member here
      · rcases List.mem_append.1 member with old | new
        · exact ih find old here
        · rw [List.mem_singleton.1 new]
          rfl

/-- Scanning a token lists items behind it only. -/
theorem Scanning.itemsAt_eq (steps : Scanning network position token findings later) {other : Nat}
    (different : other ≠ position + 1) :
    later.chart.itemsAt other = findings.chart.itemsAt other := by
  induction steps with
  | refl => rfl
  | tail _ step ih =>
    cases step with
    | scan => rw [Findings.itemsAt_discover, if_neg different, ih]

/-- Scanning notes nothing. -/
theorem Scanning.notes_eq (steps : Scanning network position token findings later) :
    later.notes = findings.notes := by
  induction steps with
  | refl => rfl
  | tail _ step ih =>
    cases step with
    | scan => rw [Findings.notes_discover, ih]

end

namespace Findings

variable {network : Network} {start : Nat} {input : List Token} {findings later : Findings}
  {position : Nat} {item : Item} {token : Token}

/-- Behind the position that a sweep has closed and scanned, it has found by scanning only. -/
theorem Swept.countAt_scanAll (swept : findings.Swept network start input position)
    (read : input[position]? = some token) :
    let later := (findings.close network position).scanAll network position token
    later.chart.countAt (position + 1) = (later.scannedAt (position + 1)).length := by
  intro later
  obtain ⟨linked, closing, -⟩ := swept.close
  obtain ⟨scanning, -⟩ := linked.scanAll_scanning read
  have first : ∀ find ∈ (findings.close network position).finds,
      find.1.position ≠ position + 1 := by
    intro find member here
    have found := linked.coherent.has_of_mem member
    rw [here] at found
    have old := (Closing.has_iff closing (Nat.succ_ne_self position) _).1 found
    exact absurd (swept.bounded _ _ old) (Nat.not_succ_le_self position)
  have scans := scanning.isScan first
  have listing := (linked.scanning read scanning).coherent.listing (position + 1)
  have same : later.scannedAt (position + 1) =
      later.finds.filter fun find => find.1.position = position + 1 := by
    refine List.filter_congr ?_
    intro find member
    by_cases here : find.1.position = position + 1
    · simp [here, scans find member here]
    · simp [here]
  rw [same, Chart.countAt, ← Enumeration.length_toList, listing, List.length_map]

/-! ## The sweep -/

/-- **A visit notes** the stray stops of the position that it closes, and surveys it. -/
theorem Swept.notes_visit (swept : findings.Swept network start input position)
    (read : input[position]? = some token) :
    let closed := findings.close network position
    let visited := findings.visit network position token
    visited.notes = findings.notes ++ (closed.straysAt network position ++
      [.surveyed position (closed.chart.countAt position)
        (visited.scannedAt (position + 1)).length]) := by
  intro closed visited
  obtain ⟨linked, closing, -⟩ := swept.close
  obtain ⟨scanning, -⟩ := linked.scanAll_scanning read
  have here : (closed.scanAll network position token).chart.countAt position =
      closed.chart.countAt position := by
    have inFront : position ≠ position + 1 := Nat.ne_of_lt (Nat.lt_succ_self position)
    rw [Chart.countAt, scanning.itemsAt_eq inFront, Chart.countAt]
  have scanned : (closed.scanAll network position token).chart.countAt (position + 1) =
      (visited.scannedAt (position + 1)).length :=
    (swept.countAt_scanAll read).trans (congrArg List.length (scannedAt_note _ rfl _).symm)
  have strays := (swept.linked.loop_close position).notes_eq swept.linked
  rw [List.drop_zero] at strays
  show (Findings.note _ _).notes = _
  rw [notes_note _ rfl, scanning.notes_eq, here, scanned, strays, List.append_assoc]
  rfl

/-- What a sweep finds by scanning at the position to which it has come or in front of it, it has
found already. -/
theorem Swept.scannedAt_sweep {rest : List Token}
    (swept : findings.Swept network start input position) (unread : input.drop position = rest)
    {other : Nat} (before : other ≤ position) :
    (findings.sweep network position rest).scannedAt other = findings.scannedAt other := by
  refine swept.sweep_invariant (fun later => later.scannedAt other = findings.scannedAt other)
    unread ?_ rfl
  intro now token later behind swept read same
  obtain ⟨linked, closing, -⟩ := swept.close
  obtain ⟨scanning, -⟩ := linked.scanAll_scanning read
  show (Findings.note _ _).scannedAt other = _
  rw [scannedAt_note _ rfl, scanning.scannedAt_eq (by omega), closing.scannedAt_eq, same]

/-- What is behind a position lists the same stray stops there. -/
theorem Behind.straysAt_eq (behind : Behind position findings later)
    (linked : findings.Linked network start input) (linked' : later.Linked network start input) :
    later.straysAt network position = findings.straysAt network position := by
  rw [straysAt, straysAt, behind.itemsAt_eq linked linked']
  exact List.filterMap_congr fun item member => linked.strayStop?_eq behind.grown member

/-- A position has no items exactly if nothing is found there. -/
theorem countAt_eq_zero_iff (findings : Findings) (position : Nat) :
    findings.chart.countAt position = 0 ↔ ¬ ∃ item, findings.Has position item := by
  constructor
  · rintro none ⟨item, found⟩
    obtain ⟨n, known, -⟩ := (has_iff_exists_item? _ _ _).1 found
    omega
  · intro nothing
    by_contra some'
    have known : 0 < findings.chart.countAt position := Nat.pos_of_ne_zero some'
    exact nothing ⟨_, (has_iff_exists_item? _ _ _).2 ⟨0, known, Array.getElem?_eq_getElem known⟩⟩

/-- A passage keeps findings filled. -/
theorem Filled.passage {stages : List Findings} (filled : findings.Filled)
    (passage : Passage network input findings stages later) : later.Filled :=
  (passage.invariant (fun _ _ step => RunStep.filled step) filled).2

/-- What was scanned into the next position stays so in a sweep. -/
theorem Swept.scannedAt_sweep_cons {token : Token} {rest : List Token}
    (swept : findings.Swept network start input position)
    (unread : input.drop position = token :: rest) :
    (findings.sweep network position (token :: rest)).scannedAt (position + 1) =
      (findings.visit network position token).scannedAt (position + 1) := by
  obtain ⟨read, left⟩ := getElem?_and_drop_of_drop_eq_cons unread
  by_cases none : (findings.visit network position token).chart.countAt (position + 1) = 0
  · rw [sweep_cons_of_eq_zero none]
  · rw [sweep_cons_of_ne_zero none]
    exact (swept.visit read).scannedAt_sweep left (Nat.le_refl _)

/-- What a visit notes is told by the sweep that goes on behind it. -/
theorem Swept.notes_visit_eq_sweep {token : Token} {rest : List Token}
    (swept : findings.Swept network start input position)
    (unread : input.drop position = token :: rest) :
    let later := findings.sweep network position (token :: rest)
    (findings.visit network position token).notes =
      findings.notes ++ (later.straysAt network position ++ [later.survey position]) := by
  intro later
  obtain ⟨read, -⟩ := getElem?_and_drop_of_drop_eq_cons unread
  have inside : position < input.length := (List.getElem?_eq_some_iff.1 read).1
  have linkedClosed := swept.close.1
  have linkedLater := (swept.sweep unread (Nat.le_of_lt inside)).linked
  have behind : Behind position (findings.close network position) later :=
    swept.behind_sweep unread
  rw [swept.notes_visit read, behind.straysAt_eq linkedClosed linkedLater, survey,
    swept.scannedAt_sweep_cons unread, Chart.countAt, Chart.countAt,
    behind.itemsAt_eq linkedClosed linkedLater]

/-- **A sweep notes,** position by position, the stray stops there and a survey, up to the last
position that it has come to. -/
theorem Swept.notes_sweep {rest : List Token} (swept : findings.Swept network start input position)
    (filled : findings.Filled) (unread : input.drop position = rest)
    (come : position < input.length → ∃ item, findings.Has position item) :
    let later := findings.sweep network position rest
    later.notes = findings.notes ++
      (List.range' position (min input.length later.chart.size - position)).flatMap
        fun position => later.straysAt network position ++ [later.survey position] := by
  induction rest generalizing findings position with
  | nil =>
    have ends : input.length ≤ position := List.drop_eq_nil_iff.1 unread
    have none : min input.length findings.chart.size - position = 0 := by omega
    simp [Findings.sweep, none]
  | cons token rest ih =>
    intro later
    obtain ⟨read, left⟩ := getElem?_and_drop_of_drop_eq_cons unread
    have next := swept.visit read
    have inside : position < input.length := (List.getElem?_eq_some_iff.1 read).1
    have filledVisited := filled.passage (passage_visit network read findings)
    have visited : (findings.visit network position token).notes =
        findings.notes ++ (later.straysAt network position ++ [later.survey position]) :=
      swept.notes_visit_eq_sweep unread
    have reached : position < later.chart.size := by
      obtain ⟨item, found⟩ := come inside
      have closed := (Closing.grows swept.close.2.1).has found
      exact ((swept.behind_sweep unread).grown.has closed).lt_size
    by_cases none : (findings.visit network position token).chart.countAt (position + 1) = 0
    · have ended : later = findings.visit network position token := sweep_cons_of_eq_zero none
      have size : later.chart.size ≤ position + 1 := by
        refine Nat.not_lt.1 fun more => ?_
        rw [ended] at more
        exact (countAt_eq_zero_iff _ _).1 none ((next.linked.lt_size_iff filledVisited _).1 more)
      have single : min input.length later.chart.size - position = 1 := by omega
      rw [single, List.range'_one, List.flatMap_singleton, ← visited, ended]
    · have goesOn : later = (findings.visit network position token).sweep network (position + 1)
          rest := sweep_cons_of_ne_zero none
      have found : ∃ item, (findings.visit network position token).Has (position + 1) item := by
        by_contra nothing
        exact none ((countAt_eq_zero_iff _ _).2 nothing)
      have rest := ih next filledVisited left fun _ => found
      rw [← goesOn] at rest
      have more : min input.length later.chart.size - position =
          min input.length later.chart.size - (position + 1) + 1 := by omega
      rw [more, List.range'_succ, List.flatMap_cons, ← List.append_assoc, ← visited]
      exact rest

/-! ## Runs -/

/-- What a run notes first: the tokens that it leaves aside, if there are any. -/
def ignoredNotes (tokens : List Token) : List Occurrence :=
  let last := (beforeEndMarker tokens).length
  let count := tokens.length - last - 1
  if count = 0 then [] else [.ignored count last]

/-- A run begins with a note of what it leaves aside. -/
theorem notes_seeded (rule : Rule) (tokens : List Token) :
    (seeded rule tokens).notes = ignoredNotes tokens := by
  rw [seeded, notes_discover, noteIgnored, ignoredNotes]
  split
  · rfl
  · rw [notes_note _ rfl]
    rfl

/-- The findings with which a run begins are filled. -/
theorem filled_seeded (rule : Rule) (tokens : List Token) : (seeded rule tokens).Filled := by
  refine Filled.discover ?_ _ _ _
  have nothing : (initial.noteIgnored tokens (beforeEndMarker tokens).length).chart = ∅ := by
    unfold noteIgnored
    dsimp only
    split
    · rfl
    · rfl
  intro position before
  rw [nothing] at before
  exact absurd before (Nat.not_lt_zero position)

/-- Settling the position behind the end marker notes the stray stops there. -/
theorem Linked.notes_settle (linked : findings.Linked network start input) (last : Nat) :
    let settled := findings.settle network last
    settled.notes = findings.notes ++ settled.straysAt network (last + 1) := by
  intro settled
  by_cases none : findings.chart.countAt (last + 1) = 0
  · have same : settled = findings := by simp only [settled, settle, none, if_true]
    have empty : (findings.chart.itemsAt (last + 1)).toList = [] :=
      List.eq_nil_of_length_eq_zero none
    rw [same, straysAt, empty, List.filterMap_nil, List.append_nil]
  · have closed : settled = findings.close network (last + 1) := by
      simp only [settled, settle, none, if_false]
    have strays := (linked.loop_close (last + 1)).notes_eq linked
    rw [List.drop_zero] at strays
    rw [closed, strays, straysAt]

/-- Settling the position behind the end marker finds nothing by scanning. -/
theorem Linked.scannedAt_settle (linked : findings.Linked network start input) (last other : Nat) :
    (findings.settle network last).scannedAt other = findings.scannedAt other := by
  unfold settle
  split
  · rfl
  · exact (linked.close_closing (last + 1)).scannedAt_eq other

/-- What is behind a position has the same survey of it, if it has no more finds by scanning. -/
theorem Behind.survey_eq (behind : Behind position findings later)
    (linked : findings.Linked network start input) (linked' : later.Linked network start input)
    (scanned : later.scannedAt (position + 1) = findings.scannedAt (position + 1)) :
    later.survey position = findings.survey position := by
  rw [survey, survey, Chart.countAt, Chart.countAt, behind.itemsAt_eq linked linked', scanned]

/-- Up to the end marker, settling reaches as far as the sweep has come. -/
theorem Swept.min_size_settle {last : Nat}
    (swept : findings.Swept network start input input.length) (filled : findings.Filled)
    (length : input.length = last + 1) :
    min (last + 1) findings.chart.size =
      min (last + 1) (findings.settle network last).chart.size := by
  have linked := (swept.settle length).linked
  have filledSettled := filled.passage (passage_settle network input last findings)
  have sizes : ∀ position ≤ last,
      position < findings.chart.size ↔ position < (findings.settle network last).chart.size := by
    intro position inside
    rw [swept.linked.lt_size_iff filled, linked.lt_size_iff filledSettled]
    simp only [Has, (swept.linked.behind_settle inside).itemsAt_eq swept.linked linked]
  have first := sizes (min last (findings.chart.size - 1)) (Nat.min_le_left _ _)
  have second :=
    sizes (min last ((findings.settle network last).chart.size - 1)) (Nat.min_le_left _ _)
  omega

/-- Up to the end marker, settling leaves the stray stops and the surveys alone. -/
theorem Swept.flatMap_settle {last count : Nat}
    (swept : findings.Swept network start input input.length) (length : input.length = last + 1)
    (inside : count ≤ last + 1) :
    let settled := findings.settle network last
    (List.range count).flatMap (fun position =>
        findings.straysAt network position ++ [findings.survey position]) =
      (List.range count).flatMap fun position =>
        settled.straysAt network position ++ [settled.survey position] := by
  intro settled
  have linked := (swept.settle length).linked
  refine List.flatMap_congr ?_
  intro position member
  have here : position ≤ last := by
    have bound := List.mem_range.1 member
    omega
  have behind : Behind position findings settled := swept.linked.behind_settle here
  rw [behind.straysAt_eq swept.linked linked,
    behind.survey_eq swept.linked linked (swept.linked.scannedAt_settle last (position + 1))]

/-- How a run notes its end. -/
def outcome (accepting : Option Place) (last : Nat) : Occurrence :=
  match accepting with
  | some place => .accepted place.position place.item
  | none => .rejected last

/-- The verdict is noted. -/
theorem noteVerdict_eq (accepting : Option Place) (last : Nat) (findings : Findings) :
    findings.noteVerdict accepting last = findings.note (outcome accepting last) := by
  cases accepting with
  | none => rfl
  | some place => rfl

/-- The end of a run is no find. -/
theorem find?_outcome (accepting : Option Place) (last : Nat) :
    (outcome accepting last).find? = none := by
  cases accepting with
  | none => rfl
  | some place => rfl

/-- A note leaves the stray stops alone. -/
theorem straysAt_note (findings : Findings) (network : Network) (position : Nat)
    (occurrence : Occurrence) :
    (findings.note occurrence).straysAt network position = findings.straysAt network position := rfl

/-- A note leaves the surveys alone. -/
theorem survey_note (findings : Findings) {occurrence : Occurrence}
    (noFind : occurrence.find? = none) (position : Nat) :
    (findings.note occurrence).survey position = findings.survey position := by
  rw [survey, scannedAt_note findings noFind, chart_note, survey]

end Findings

namespace Network

/-- Up to its end a run notes what it leaves aside, then position by position the stray stops and a
survey, and the stray stops behind the end marker. -/
theorem notes_settledFrom (network : Network) {startRule : Nat} {rule : Rule}
    (known : network.rule? startRule = some rule) (tokens : List Token) :
    let settled := network.settledFrom rule tokens
    let last := (beforeEndMarker tokens).length
    settled.notes = Findings.ignoredNotes tokens ++
      ((List.range (min (last + 1) settled.chart.size)).flatMap fun position =>
        settled.straysAt network position ++ [settled.survey position]) ++
      settled.straysAt network (last + 1) := by
  intro settled last
  have unread : (inputOf tokens).drop 0 = inputOf tokens := List.drop_zero
  have length : (inputOf tokens).length = last + 1 := length_inputOf tokens
  have seeded := network.swept_seeded known tokens
  have filled := Findings.filled_seeded rule tokens
  have swept := seeded.sweep unread (Nat.zero_le _)
  have filledSwept := filled.passage (Findings.passage_sweep network unread _)
  have sweepNotes := seeded.notes_sweep filled unread fun _ => ⟨_, seeded.seeded⟩
  dsimp only at sweepNotes
  rw [Nat.sub_zero, length, swept.min_size_settle filledSwept length, ← List.range_eq_range',
    Findings.notes_seeded] at sweepNotes
  have isSettled : settled = Findings.settle network last
      ((Findings.seeded rule tokens).sweep network 0 (inputOf tokens)) := rfl
  rw [isSettled, swept.linked.notes_settle last, sweepNotes,
    swept.flatMap_settle length (Nat.min_le_left _ _)]

/-- **What a run notes is told by its chart:** what it leaves aside, then position by position the
stray stops and a survey, the stray stops behind the end marker, and its end. -/
theorem notes_recognitionFrom (network : Network) {startRule : Nat} {rule : Rule}
    (known : network.rule? startRule = some rule) (tokens : List Token) :
    let recognition := network.recognitionFrom startRule rule tokens
    let last := (beforeEndMarker tokens).length
    recognition.findings.notes = Findings.ignoredNotes tokens ++
      ((List.range (min (last + 1) recognition.chart.size)).flatMap fun position =>
        recognition.findings.straysAt network position ++
          [recognition.findings.survey position]) ++
      recognition.findings.straysAt network (last + 1) ++
        [Findings.outcome recognition.accepting last] := by
  intro recognition last
  have noFind := Findings.find?_outcome recognition.accepting last
  have findings : recognition.findings = (network.settledFrom rule tokens).note
      (Findings.outcome recognition.accepting last) :=
    (network.findings_recognitionFrom startRule rule tokens).trans
      (Findings.noteVerdict_eq _ _ _)
  have notes := network.notes_settledFrom known tokens
  rw [Recognition.chart, findings, Findings.notes_note _ noFind, notes]
  simp only [Findings.straysAt_note, Findings.survey_note _ noFind, Findings.chart_note]
  rfl

end Network

end TransitionNetworks
