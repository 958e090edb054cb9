import TransitionNetworks.Proofs.Online
import Mathlib.Data.Set.Basic

/-! # Closing a position saturates it

Items at a position and callers of nodes are saturated (`Saturated`) if nothing more follows from
them without a token: an epsilon transition leads to an item, a call to the start of its rule and to
a caller registered, and a rule that stops to every caller in the state that follows.

The rules by which a closing step goes on are those of saturation
(`ClosingStep.within_of_saturated`), and a closing loop ends when nothing more follows. So what a
run has found when a position is closed is the least that is saturated and has what was found
before, in whichever order stops and callers came. From then on a run finds items further behind
only, and no caller comes late (`Findings.Swept.callers_close`), so that a finished run has at the
position what closing it has found (`Network.saturated_closings`). -/

namespace TransitionNetworks

/-- **Saturated items and callers.** What follows from items at a position without a token is among
them, with the nodes of a graph. -/
structure Saturated (network : Network) (position : Nat) (graph : StackGraph) (items : Set Item)
    (callers : Nat → Set Item) : Prop where
  /-- Epsilon transitions lead to items. -/
  epsilon : ∀ item ∈ items, ∀ kind target, network.Offers item.state (.epsilon kind target) →
    item.withState target ∈ items
  /-- Calls lead to the start of the rule on the node of the call, of which the item is a caller. -/
  call : ∀ item ∈ items, ∀ entry follow rule,
    network.Offers item.state (.call entry follow rule) →
      ∃ node, graph.frame? node = some ⟨follow, rule, position⟩ ∧
        ⟨entry, position, node⟩ ∈ items ∧ item ∈ callers node
  /-- Where the rule of a call stops, every caller of its node goes on. -/
  complete : ∀ stop ∈ items, ∀ frame, graph.frame? stop.stack = some frame →
    network.StopsIn frame.rule stop.state → ∀ caller ∈ callers stop.stack,
      caller.withState frame.follow ∈ items

namespace Findings

/-- The items found at a position. -/
def itemSet (position : Nat) (findings : Findings) : Set Item :=
  {item | findings.Has position item}

/-- The callers registered on a node. -/
def callerSet (findings : Findings) (node : Nat) : Set Item :=
  {caller | caller ∈ findings.stackGraph.callers node}

/-- All items found at a position and all callers registered are among some. -/
structure Within (position : Nat) (items : Set Item) (callers : Nat → Set Item)
    (findings : Findings) : Prop where
  /-- The items are among them. -/
  items : findings.itemSet position ⊆ items
  /-- The callers are among them. -/
  callers : ∀ node, findings.callerSet node ⊆ callers node

variable {network : Network} {start : Nat} {input : List Token} {findings later last : Findings}
  {position : Nat} {items : Set Item} {callers : Nat → Set Item}

/-- Finding an item that is among some keeps findings within them. -/
theorem Within.discover (within : findings.Within position items callers) {item : Item}
    (member : item ∈ items) (why : Provenance) :
    (findings.discover position item why).Within position items callers := by
  refine ⟨?_, ?_⟩
  · intro other found
    rcases (has_discover _ _ _ _ _ _).1 found with old | ⟨-, rfl⟩
    · exact within.items old
    · exact member
  · intro node
    rw [callerSet, stackGraph_discover]
    exact within.callers node

/-- Returns to items that are among some keep findings within them. -/
theorem Within.returnAll (within : findings.Within position items callers) {frame : Frame}
    {returns : List (Item × Item)}
    (members : ∀ pair ∈ returns, pair.2.withState frame.follow ∈ items) :
    (findings.returnAll position frame returns).Within position items callers := by
  refine ⟨?_, ?_⟩
  · intro item found
    rcases (has_returnAll _ _ _ _ _ _).1 found with old | ⟨-, pair, member, rfl⟩
    · exact within.items old
    · exact members pair member
  · intro node
    rw [callerSet, stackGraph_returnAll]
    exact within.callers node

/-- Registering a caller that is among some keeps findings within them. -/
theorem Within.register (within : findings.Within position items callers) {frame : Frame}
    {caller : Item} (member : caller ∈ callers (findings.stackGraph.push frame).1) :
    (findings.register frame caller).Within position items callers := by
  refine ⟨within.items, ?_⟩
  intro node other registered
  rcases (StackGraph.mem_callers_register _ _ _ _ _).1 registered with old | ⟨rfl, rfl⟩
  · exact within.callers node old
  · exact member

end Findings

section

variable {network : Network} {start : Nat} {input : List Token} {findings later last : Findings}
  {position : Nat} {items : Set Item} {callers : Nat → Set Item}

/-- **A closing step stays within what is saturated,** if the nodes are those that there will be in
the end. A new caller returns through stops found before it, and a stop to callers found before it,
and saturation has the returns of both. -/
theorem ClosingStep.within_of_saturated (step : ClosingStep network position findings later)
    (linked : findings.Linked network start input) (grown : later.Extends last)
    (saturated : Saturated network position last.stackGraph items callers)
    (within : findings.Within position items callers) :
    later.Within position items callers := by
  have frames := (step.grows.trans grown).frames
  cases step with
  | @epsilon item kind target found offers =>
    exact within.discover (saturated.epsilon item (within.items found) kind target offers) _
  | @predict item entry follow rule found offers =>
    rw [Findings.predict_eq entry ⟨follow, rule, position⟩] at grown ⊢
    -- the node pushed is the node of the call in the end
    obtain ⟨node, here, entered, registered⟩ :=
      saturated.call item (within.items found) entry follow rule offers
    have pushed := findings.frame?_enter_self position entry ⟨follow, rule, position⟩ item
    have same : (findings.stackGraph.push ⟨follow, rule, position⟩).1 = node :=
      StackGraph.frame?_inj (((Findings.extends_returnAll _ _ _ _).trans grown).frames _ _ pushed)
        here
    rw [← same] at entered registered
    refine ((within.register registered).discover entered _).returnAll ?_
    -- the caller makes up for stops of the rule on its node
    rintro ⟨stop, caller⟩ member
    obtain ⟨-, remembered, rfl⟩ := Findings.mem_lateReturns.1 member
    obtain ⟨frame, there, foundStop, onNode, stops⟩ := linked.emptyReturns _ stop remembered
    rw [← same] at here
    have sameFrame : frame = ⟨follow, rule, position⟩ := by
      have kept := frames _ _ there
      rw [here] at kept
      exact (Option.some.inj kept).symm
    subst sameFrame
    have onNode : stop.stack = (findings.stackGraph.push ⟨follow, rule, position⟩).1 := onNode
    rw [← onNode] at here registered
    exact saturated.complete stop (within.items foundStop) _ here stops caller registered
  | @complete stop rule found stops =>
    rcases Findings.complete_cases position stop rule findings with
      same | ⟨frame, here, rfl, returns⟩ | ⟨called, noted⟩
    · rw [same]
      exact within
    · rw [returns]
      have remembers : (findings.remember position frame stop).Within position items callers := by
        refine ⟨?_, ?_⟩
        · intro item there
          exact within.items ((Findings.has_remember _ _ _ _ _ _).1 there)
        · intro node
          rw [Findings.callerSet, Findings.callers_remember]
          exact within.callers node
      refine remembers.returnAll ?_
      intro pair member
      obtain ⟨caller, registered, rfl⟩ := List.mem_map.1 member
      exact saturated.complete stop (within.items found) frame (frames _ _ here) stops caller
        (within.callers _ registered)
    · rw [noted]
      exact ⟨within.items, within.callers⟩

/-- **Closing steps stay within what is saturated.** -/
theorem Closing.within_of_saturated (steps : Closing network position findings later)
    (linked : findings.Linked network start input)
    (saturated : Saturated network position later.stackGraph items callers)
    (within : findings.Within position items callers) :
    later.Within position items callers := by
  induction steps using Relation.ReflTransGen.head_induction_on with
  | refl => exact within
  | head step steps ih =>
    exact ih (linked.closingStep step)
      (step.within_of_saturated linked (Closing.grows steps) saturated within)

end

namespace Findings

variable {network : Network} {start : Nat} {input : List Token} {findings later last : Findings}
  {position : Nat} {token : Token}

/-- **Closing a position saturates it,** and finds no more than saturation asks for. -/
theorem Linked.saturated_close (linked : findings.Linked network start input) (position : Nat) :
    Saturated network position (findings.close network position).stackGraph
      ((findings.close network position).itemSet position)
      (findings.close network position).callerSet := by
  refine ⟨?_, ?_, ?_⟩
  · intro item found kind target offers
    exact (linked.settled_close found).followed _ offers
  · intro item found entry follow rule offers
    exact (linked.settled_close found).followed _ offers
  · intro stop found frame here stops caller registered
    exact (linked.settled_close found).returned frame here stops caller registered

/-! ## What a run finds behind a position -/

/-- **Later findings are behind a position:** findings grow, and finds are added behind the position
only. -/
structure Behind (position : Nat) (findings later : Findings) : Prop where
  /-- Findings grow. -/
  grown : findings.Extends later
  /-- Finds are added behind the position. -/
  adds : findings.Adds (position < ·) later

/-- Findings behind later findings are behind the first. -/
theorem Behind.trans (first : Behind position findings later)
    (second : Behind position later last) : Behind position findings last :=
  ⟨first.grown.trans second.grown, first.adds.trans second.adds⟩

/-- Findings that are behind a position list the same items there. -/
theorem Behind.itemsAt_eq (behind : Behind position findings later)
    (linked : findings.Linked network start input) (linked' : later.Linked network start input) :
    later.chart.itemsAt position = findings.chart.itemsAt position :=
  linked.coherent.itemsAt_eq linked'.coherent behind.adds.findsUpTo_eq (Nat.le_refl position)

/-- Once the position to which a sweep has come is closed, the sweep is behind it. -/
theorem Swept.behind_sweep {rest : List Token} (swept : findings.Swept network start input position)
    (unread : input.drop position = token :: rest) :
    Behind position (findings.close network position)
      (findings.sweep network position (token :: rest)) := by
  refine ⟨?_, swept.adds_sweep_close unread⟩
  obtain ⟨read, left⟩ := getElem?_and_drop_of_drop_eq_cons unread
  have visited : (findings.close network position).Extends
      (findings.visit network position token) :=
    ((passage_scanAll network read _).append (.single (.note rfl))).grows
  by_cases none : (findings.visit network position token).chart.countAt (position + 1) = 0
  · rw [Findings.sweep_cons_of_eq_zero none]
    exact visited
  · rw [Findings.sweep_cons_of_ne_zero none]
    exact visited.trans (passage_sweep network left _).grows

/-- What settles further behind is behind a position. -/
theorem Linked.behind_settle (linked : findings.Linked network start input) {last : Nat}
    (inside : position ≤ last) : Behind position findings (findings.settle network last) :=
  ⟨(passage_settle network input last findings).grows,
    (linked.adds_settle last).mono fun _ here => by omega⟩

/-- A verdict is no find, and so is behind every position. -/
theorem behind_noteVerdict (findings : Findings) (position : Nat) (accepting : Option Place)
    (last : Nat) : Behind position findings (findings.noteVerdict accepting last) := by
  refine ⟨?_, .of_finds_eq (finds_noteVerdict accepting last findings)⟩
  unfold noteVerdict
  cases accepting with
  | none => exact extends_note findings rfl
  | some place => exact extends_note findings rfl

/-- **No caller comes late.** Behind a position that is closed, the nodes there are then keep the
callers that they have then: a caller is found where the call on the node began, and whatever calls
there is registered already. -/
theorem Swept.callers_close (swept : findings.Swept network start input position)
    (linked : last.Linked network start input)
    (behind : Behind position (findings.close network position) last) {node : Nat} {frame : Frame}
    (here : (findings.close network position).stackGraph.frame? node = some frame) :
    last.callerSet node = (findings.close network position).callerSet node := by
  obtain ⟨closed, closing, settled⟩ := swept.close
  have began : frame.position ≤ position := by
    rcases Closing.frame?_of_frame? closing here with old | now
    · exact Nat.le_of_lt (swept.began node frame old)
    · exact Nat.le_of_eq now
  refine Set.Subset.antisymm ?_ fun caller registered => behind.grown.mem_callers registered
  intro caller registered
  obtain ⟨frame', entry, there, found, offers⟩ := linked.callers node caller registered
  have same : frame' = frame := Option.some.inj (there.symm.trans (behind.grown.frames _ _ here))
  subst same
  -- the caller was found up to the position, so its call was followed when this was closed
  have items := closed.coherent.itemsAt_eq linked.coherent behind.adds.findsUpTo_eq began
  have old : (findings.close network position).Has frame'.position caller := by
    rwa [Has, ← items]
  obtain ⟨node', called, -, known⟩ := (settled _ caller began old).followed _ offers
  rwa [StackGraph.frame?_inj called here] at known

/-! ## The positions that a run closes -/

/-- The positions that a sweep closes, each with what is found when it is closed. -/
def sweepClosings (network : Network) : Nat → List Token → Findings → List (Nat × Findings)
  | _, [], _ => []
  | position, token :: rest, findings =>
    (position, findings) ::
      if (findings.visit network position token).chart.countAt (position + 1) = 0 then []
      else sweepClosings network (position + 1) rest (findings.visit network position token)

/-- The position behind the end marker at `last`, if it is closed. -/
def settleClosings (last : Nat) (findings : Findings) : List (Nat × Findings) :=
  if findings.chart.countAt (last + 1) = 0 then [] else [(last + 1, findings)]

/-- A sweep closes positions to which it has come, in front of the end of the input, and is behind
them in the end. -/
theorem Swept.of_mem_sweepClosings {rest : List Token}
    (swept : findings.Swept network start input position) (unread : input.drop position = rest)
    {closing : Nat × Findings} (member : closing ∈ sweepClosings network position rest findings) :
    closing.2.Swept network start input closing.1 ∧ closing.1 < input.length ∧
      Behind closing.1 (closing.2.close network closing.1)
        (findings.sweep network position rest) := by
  induction rest generalizing findings position with
  | nil => exact absurd member List.not_mem_nil
  | cons token rest ih =>
    obtain ⟨read, left⟩ := getElem?_and_drop_of_drop_eq_cons unread
    rcases List.mem_cons.1 member with rfl | member
    · exact ⟨swept, (List.getElem?_eq_some_iff.1 read).1, swept.behind_sweep unread⟩
    · by_cases none : (findings.visit network position token).chart.countAt (position + 1) = 0
      · rw [if_pos none] at member
        exact absurd member List.not_mem_nil
      · rw [if_neg none] at member
        rw [Findings.sweep_cons_of_ne_zero none]
        exact ih (swept.visit read) left member

/-- A sweep closes every position from its own on at which it finds an item, up to the end of the
input. -/
theorem Swept.exists_mem_sweepClosings {rest : List Token}
    (swept : findings.Swept network start input position) (unread : input.drop position = rest)
    {other : Nat} {item : Item} (further : position ≤ other) (inside : other < input.length)
    (found : (findings.sweep network position rest).Has other item) :
    ∃ before, (other, before) ∈ sweepClosings network position rest findings := by
  induction rest generalizing findings position with
  | nil =>
    have ends : input.length ≤ position := List.drop_eq_nil_iff.1 unread
    omega
  | cons token rest ih =>
    by_cases here : other = position
    · subst here
      exact ⟨findings, List.mem_cons_self ..⟩
    obtain ⟨read, left⟩ := getElem?_and_drop_of_drop_eq_cons unread
    have next := swept.visit read
    by_cases none : (findings.visit network position token).chart.countAt (position + 1) = 0
    · -- the sweep ends in front of the position
      rw [Findings.sweep_cons_of_eq_zero none] at found
      have before := (next.skip none (Nat.le_refl _)).bounded other item found
      obtain rfl : other = position + 1 := by omega
      obtain ⟨n, known, -⟩ := (has_iff_exists_item? _ _ _).1 found
      omega
    · rw [Findings.sweep_cons_of_ne_zero none] at found
      obtain ⟨before, member⟩ := ih next left (by omega) found
      refine ⟨before, List.mem_cons_of_mem _ ?_⟩
      rwa [if_neg none]

/-- The position behind the end marker is closed when it is settled. -/
theorem eq_of_mem_settleClosings (network : Network) {last : Nat} {closing : Nat × Findings}
    (member : closing ∈ settleClosings last findings) :
    closing = (last + 1, findings) ∧
      findings.settle network last = findings.close network (last + 1) := by
  by_cases none : findings.chart.countAt (last + 1) = 0
  · rw [settleClosings, if_pos none] at member
    exact absurd member List.not_mem_nil
  · rw [settleClosings, if_neg none] at member
    exact ⟨List.mem_singleton.1 member, by rw [settle, if_neg none]⟩

/-- The position behind the end marker is closed if an item is found there. -/
theorem mem_settleClosings {last : Nat} {item : Item}
    (found : (findings.settle network last).Has (last + 1) item) :
    (last + 1, findings) ∈ settleClosings last findings := by
  by_cases none : findings.chart.countAt (last + 1) = 0
  · rw [settle, if_pos none] at found
    obtain ⟨n, known, -⟩ := (has_iff_exists_item? _ _ _).1 found
    omega
  · rw [settleClosings, if_neg none]
    exact List.mem_singleton_self _

end Findings

namespace Network

variable {network : Network} {startRule : Nat} {rule : Rule} {tokens : List Token}

/-- **The positions that a run closes,** first closed first, each with what is found when it is
closed: those of the sweep and the one behind the end marker. -/
def closings (network : Network) (rule : Rule) (tokens : List Token) : List (Nat × Findings) :=
  let seeded := Findings.seeded rule tokens
  Findings.sweepClosings network 0 (inputOf tokens) seeded ++
    Findings.settleClosings (beforeEndMarker tokens).length
      (seeded.sweep network 0 (inputOf tokens))

/-- A run closes positions to which it has come, and is behind them in the end. -/
theorem swept_of_mem_closings (known : network.rule? startRule = some rule)
    {closing : Nat × Findings} (member : closing ∈ network.closings rule tokens) :
    closing.2.Swept network rule.start (inputOf tokens) closing.1 ∧
      Findings.Behind closing.1 (closing.2.close network closing.1)
        (network.recognitionFrom startRule rule tokens).findings := by
  have seeded := network.swept_seeded known tokens
  have swept := seeded.sweep List.drop_zero (Nat.zero_le _)
  have length := length_inputOf tokens
  have verdict := (network.settledFrom rule tokens).behind_noteVerdict closing.1
    (network.recognitionFrom startRule rule tokens).accepting (beforeEndMarker tokens).length
  rw [← findings_recognitionFrom] at verdict
  rcases List.mem_append.1 member with inSweep | inSettling
  · obtain ⟨came, inside, behind⟩ := seeded.of_mem_sweepClosings List.drop_zero inSweep
    have settles := swept.linked.behind_settle (Nat.le_of_lt_succ (length ▸ inside))
    exact ⟨came, (behind.trans settles).trans verdict⟩
  · obtain ⟨rfl, settled⟩ := Findings.eq_of_mem_settleClosings network inSettling
    rw [settledFrom, settled] at verdict
    exact ⟨length ▸ swept, verdict⟩

/-- A run closes every position of its chart. -/
theorem exists_mem_closings (known : network.rule? startRule = some rule) {position : Nat}
    (inside : position < (network.recognitionFrom startRule rule tokens).chart.size) :
    ∃ before, (position, before) ∈ network.closings rule tokens := by
  have seeded := network.swept_seeded known tokens
  have swept := seeded.sweep List.drop_zero (Nat.zero_le _)
  have length := length_inputOf tokens
  have settled := (swept.settle length).linked
  obtain ⟨finished, -⟩ := network.finished_recognitionFrom known tokens
  obtain ⟨item, found⟩ := (finished.linked.lt_size_iff
    (network.filled_recognitionFrom startRule rule tokens) position).1 inside
  have bounded := finished.bounded position item found
  have verdict := (network.settledFrom rule tokens).behind_noteVerdict position
    (network.recognitionFrom startRule rule tokens).accepting (beforeEndMarker tokens).length
  rw [← findings_recognitionFrom] at verdict
  rw [Findings.Has, verdict.itemsAt_eq settled finished.linked, settledFrom] at found
  by_cases last : position = (inputOf tokens).length
  · rw [length] at last
    subst last
    exact ⟨_, List.mem_append_right _ (Findings.mem_settleClosings found)⟩
  · have before : position < (inputOf tokens).length := by omega
    have settles := swept.linked.behind_settle (Nat.le_of_lt_succ (length ▸ before))
    rw [settles.itemsAt_eq swept.linked settled] at found
    obtain ⟨earlier, member⟩ :=
      seeded.exists_mem_sweepClosings List.drop_zero (Nat.zero_le _) before found
    exact ⟨earlier, List.mem_append_left _ member⟩

/-- **Closing a position of a run computes its least fixed point,** in the order of a worklist. From
a rule that exists a run succeeds, and it closes every position of its chart. Wherever it closes a
position, the items of the position are expanded one after the other until none is left. Then the
items from before are the first ones, in the same order; the items and the callers are saturated;
and they are among all others that are saturated and have the items and the callers from before.
Nothing comes later: the chart of the run lists the same items at the position, and the nodes that
there are have the same callers. -/
theorem saturated_closings (network : Network) {startRule : Nat} {rule : Rule}
    (known : network.rule? startRule = some rule) (tokens : List Token) :
    ∃ recognition, network.recognition startRule tokens = .ok recognition ∧
      (∀ position < recognition.chart.size, ∃ before,
        (position, before) ∈ network.closings rule tokens) ∧
      ∀ position before, (position, before) ∈ network.closings rule tokens →
        let closed := before.close network position
        ClosingLoop network position 0 before closed ∧
        (before.chart.itemsAt position).toList <+: (closed.chart.itemsAt position).toList ∧
        Saturated network position closed.stackGraph (closed.itemSet position) closed.callerSet ∧
        (∀ items callers, before.itemSet position ⊆ items →
          (∀ node, before.callerSet node ⊆ callers node) →
          Saturated network position closed.stackGraph items callers →
            closed.itemSet position ⊆ items ∧ ∀ node, closed.callerSet node ⊆ callers node) ∧
        recognition.chart.itemsAt position = closed.chart.itemsAt position ∧
        ∀ node frame, closed.stackGraph.frame? node = some frame →
          recognition.findings.callerSet node = closed.callerSet node := by
  refine ⟨_, recognition_of_rule? known tokens, fun _ => exists_mem_closings known, ?_⟩
  intro position before member
  obtain ⟨finished, -⟩ := network.finished_recognitionFrom known tokens
  obtain ⟨swept, behind⟩ := swept_of_mem_closings known member
  have linked := swept.linked
  have steps := linked.close_closing position
  refine ⟨linked.loop_close position, (Closing.grows steps).items position,
    linked.saturated_close position, ?_, ?_, ?_⟩
  · intro items callers itemsBefore callersBefore saturated
    have within := Closing.within_of_saturated steps linked saturated ⟨itemsBefore, callersBefore⟩
    exact ⟨within.items, within.callers⟩
  · exact behind.itemsAt_eq (linked.closing steps) finished.linked
  · intro node frame here
    exact swept.callers_close finished.linked behind here

/-- When the run of the sample on a seven closes the first position, the start of the rule on the
node of the call that it makes becomes a caller of this very node, and goes on behind the call,
which ends where it began. -/
theorem saturated_closings_doubling :
    (0, Findings.seeded ⟨"S", 0, 1⟩ [7]) ∈ doubling.closings ⟨"S", 0, 1⟩ [7] ∧
      ∃ node, ((Findings.seeded ⟨"S", 0, 1⟩ [7]).close doubling 0).stackGraph.frame? node =
          some ⟨2, 0, 0⟩ ∧
        ⟨0, 0, node⟩ ∈ ((Findings.seeded ⟨"S", 0, 1⟩ [7]).close doubling 0).callerSet node ∧
        ⟨2, 0, node⟩ ∈ ((Findings.seeded ⟨"S", 0, 1⟩ [7]).close doubling 0).itemSet 0 := by
  have known : doubling.rule? 0 = some ⟨"S", 0, 1⟩ := rfl
  have member : (0, Findings.seeded ⟨"S", 0, 1⟩ [7]) ∈ doubling.closings ⟨"S", 0, 1⟩ [7] :=
    List.mem_append_left _ (List.mem_cons_self ..)
  obtain ⟨_, -, -, closes⟩ := saturated_closings doubling known [7]
  obtain ⟨-, first, saturated, -⟩ := closes 0 _ member
  have seeded := (doubling.swept_seeded known [7]).seeded
  generalize (Findings.seeded ⟨"S", 0, 1⟩ [7]).close doubling 0 = closed at first saturated ⊢
  have seed : ⟨0, 0, emptyStack⟩ ∈ closed.itemSet 0 := first.subset seeded
  have calls : doubling.Offers 0 (.call 0 2 0) := ⟨_, rfl, rfl, by decide⟩
  have skips : doubling.Offers 0 (.epsilon .plain 1) := ⟨_, rfl, rfl, by decide⟩
  have stops : doubling.StopsIn 0 1 := ⟨_, rfl, rfl⟩
  obtain ⟨node, here, entered, -⟩ := saturated.call _ seed 0 2 0 calls
  obtain ⟨other, there, -, registered⟩ := saturated.call _ entered 0 2 0 calls
  have same := StackGraph.frame?_inj there here
  subst same
  -- the rule stops on the node at once, and so its caller on the same node goes on
  have stopped := saturated.epsilon _ entered .plain 1 skips
  exact ⟨member, other, there, registered,
    saturated.complete _ stopped ⟨2, 0, 0⟩ there stops _ registered⟩

end Network

end TransitionNetworks
