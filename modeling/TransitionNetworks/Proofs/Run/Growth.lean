import TransitionNetworks.Recognition.Findings

/-! # What a run changes

The findings of a run only grow (`Findings.Extends`): items, frames, callers and empty returns are
listed behind the earlier ones, and what was found stays found. This module says of every operation
on findings what it adds, through four views: the items that a position has (`Findings.Has`), the
frames, the callers and the empty returns of the stack graph. The finds of the history
(`Findings.finds`) give the order of discovery.

Entering a call registers the caller and finds the start of the rule (`Findings.enter`), and
whatever goes on behind calls is one list of returns (`Findings.returnAll`): `Findings.predict_eq`
and `Findings.complete_cases` put the two operations together from these. -/

namespace TransitionNetworks

/-- The find that an occurrence is, if it is one. -/
def Occurrence.find? : Occurrence → Option (Place × Provenance)
  | found position item why => some (⟨position, item⟩, why)
  | ignored .. => none
  | strayStop .. => none
  | surveyed .. => none
  | accepted .. => none
  | rejected _ => none

namespace Findings

/-- An item is found at a position. -/
def Has (findings : Findings) (position : Nat) (item : Item) : Prop :=
  item ∈ findings.chart.itemsAt position

/-- The finds in the order of discovery, each with its provenance. -/
def finds (findings : Findings) : List (Place × Provenance) :=
  findings.history.toList.filterMap Occurrence.find?

/-- An item is found exactly if the chart contains it. -/
theorem has_iff_contains (findings : Findings) (position : Nat) (item : Item) :
    findings.Has position item ↔ findings.chart.contains position item = true :=
  Enumeration.mem_iff_contains

/-- Nothing is found at first. -/
@[simp] theorem not_has_initial (position : Nat) (item : Item) : ¬ initial.Has position item := by
  intro found
  have found : item ∈ Chart.empty.itemsAt position := found
  simp at found

/-- Finding an item adds it at its position and nothing else. -/
@[simp] theorem has_discover (findings : Findings) (position other : Nat) (item another : Item)
    (why : Provenance) :
    (findings.discover position item why).Has other another ↔
      findings.Has other another ∨ other = position ∧ another = item := by
  rw [Has, itemsAt_discover]
  by_cases same : other = position
  · subst same
    simp [Has, or_comm]
  · simp [Has, same]

/-- A note finds nothing. -/
@[simp] theorem has_note (findings : Findings) (occurrence : Occurrence) (position : Nat)
    (item : Item) : (findings.note occurrence).Has position item ↔ findings.Has position item :=
  Iff.rfl

/-- Finding an item is news only the first time, and then it is the last find. -/
theorem finds_discover (findings : Findings) (position : Nat) (item : Item) (why : Provenance) :
    (findings.discover position item why).finds =
      if findings.chart.contains position item then findings.finds
      else findings.finds ++ [(⟨position, item⟩, why)] := by
  unfold discover
  split
  · rfl
  · simp [finds, Occurrence.find?]

/-- An occurrence that is no find leaves the finds alone. -/
theorem finds_note (findings : Findings) {occurrence : Occurrence}
    (noFind : occurrence.find? = none) : (findings.note occurrence).finds = findings.finds := by
  simp [finds, note, noFind]

/-- It makes no difference whether stacks are changed before an item is found or after. -/
theorem discover_withGraph (findings : Findings) (graph : StackGraph) (position : Nat)
    (item : Item) (why : Provenance) :
    ({ findings with stackGraph := graph } : Findings).discover position item why =
      { findings.discover position item why with stackGraph := graph } := by
  unfold discover
  split <;> rfl

/-! ## Growth -/

/-- **Growth of findings.** Everything listed earlier keeps its place. -/
structure Extends (findings later : Findings) : Prop where
  /-- Items stay at their positions, in order. -/
  items : ∀ position, (findings.chart.itemsAt position).toList <+:
    (later.chart.itemsAt position).toList
  /-- Frames stay on their nodes. -/
  frames : ∀ node frame, findings.stackGraph.frame? node = some frame →
    later.stackGraph.frame? node = some frame
  /-- Callers stay registered, in order. -/
  callers : ∀ node, (findings.stackGraph.callers node).toList <+:
    (later.stackGraph.callers node).toList
  /-- Empty returns stay remembered, in order. -/
  emptyReturns : ∀ node, (findings.stackGraph.emptyReturns node).toList <+:
    (later.stackGraph.emptyReturns node).toList
  /-- Finds stay in the history, in order. -/
  finds : findings.finds <+: later.finds

/-- What is found stays found. -/
theorem Extends.has {findings later : Findings} (grown : findings.Extends later) {position : Nat}
    {item : Item} (found : findings.Has position item) : later.Has position item :=
  (grown.items position).subset found

/-- A caller stays registered. -/
theorem Extends.mem_callers {findings later : Findings} (grown : findings.Extends later)
    {node : Nat} {caller : Item} (listed : caller ∈ findings.stackGraph.callers node) :
    caller ∈ later.stackGraph.callers node :=
  (grown.callers node).subset listed

/-- An empty return stays remembered. -/
theorem Extends.mem_emptyReturns {findings later : Findings} (grown : findings.Extends later)
    {node : Nat} {stop : Item} (listed : stop ∈ findings.stackGraph.emptyReturns node) :
    stop ∈ later.stackGraph.emptyReturns node :=
  (grown.emptyReturns node).subset listed

/-- Findings grow into themselves. -/
@[refl] theorem Extends.refl (findings : Findings) : findings.Extends findings where
  items _ := List.prefix_rfl
  frames _ _ := id
  callers _ := List.prefix_rfl
  emptyReturns _ := List.prefix_rfl
  finds := List.prefix_rfl

/-- Findings grow in parts. -/
theorem Extends.trans {findings later latest : Findings} (first : findings.Extends later)
    (second : later.Extends latest) : findings.Extends latest where
  items position := (first.items position).trans (second.items position)
  frames node frame here := second.frames node frame (first.frames node frame here)
  callers node := (first.callers node).trans (second.callers node)
  emptyReturns node := (first.emptyReturns node).trans (second.emptyReturns node)
  finds := first.finds.trans second.finds

/-- Findings grow by an item. -/
theorem extends_discover (findings : Findings) (position : Nat) (item : Item) (why : Provenance) :
    findings.Extends (findings.discover position item why) where
  items other := by
    rw [chart_discover]
    exact findings.chart.toList_prefix_insert position other item
  frames _ _ := by simp
  callers _ := by simp
  emptyReturns _ := by simp
  finds := by
    rw [finds_discover]
    split
    · exact List.prefix_rfl
    · exact List.prefix_append _ _

/-- Findings grow by a note that is no find. -/
theorem extends_note (findings : Findings) {occurrence : Occurrence}
    (noFind : occurrence.find? = none) : findings.Extends (findings.note occurrence) where
  items _ := List.prefix_rfl
  frames _ _ := id
  callers _ := List.prefix_rfl
  emptyReturns _ := List.prefix_rfl
  finds := (finds_note findings noFind).symm ▸ List.prefix_rfl

/-- Register a caller on the node of a frame. -/
def register (frame : Frame) (caller : Item) (findings : Findings) : Findings :=
  { findings with stackGraph := findings.stackGraph.register frame caller }

/-- Registering a caller finds nothing. -/
@[simp] theorem has_register (findings : Findings) (frame : Frame) (caller : Item) (position : Nat)
    (item : Item) :
    (findings.register frame caller).Has position item ↔ findings.Has position item :=
  Iff.rfl

/-- Findings grow by a call that is registered. -/
theorem extends_register (findings : Findings) (frame : Frame) (caller : Item) :
    findings.Extends (findings.register frame caller) where
  items _ := List.prefix_rfl
  frames node other here := (StackGraph.frame?_register _ _ _ _ _).2 (Or.inl here)
  callers node := by
    simp only [register, StackGraph.register, StackGraph.callers_addCaller,
      StackGraph.callers_push]
    split
    · rename_i here
      rw [here.1]
      exact Enumeration.toList_prefix_insert _ _
    · exact List.prefix_rfl
  emptyReturns node := by simp [register]
  finds := List.prefix_rfl

/-- Remember an item in which a call stopped at a position, if the call began there. -/
def remember (position : Nat) (frame : Frame) (stop : Item) (findings : Findings) : Findings :=
  if frame.position = position then
    { findings with stackGraph := findings.stackGraph.addEmptyReturn stop.stack stop }
  else
    findings

/-- Remembering an empty return finds nothing. -/
@[simp] theorem has_remember (findings : Findings) (position other : Nat) (frame : Frame)
    (stop item : Item) :
    (findings.remember position frame stop).Has other item ↔ findings.Has other item := by
  unfold remember
  split <;> rfl

/-- Remembering an empty return leaves the frames alone. -/
@[simp] theorem frame?_remember (findings : Findings) (position : Nat) (frame : Frame)
    (stop : Item) (node : Nat) :
    (findings.remember position frame stop).stackGraph.frame? node =
      findings.stackGraph.frame? node := by
  unfold remember
  split <;> rfl

/-- Remembering an empty return leaves the callers alone. -/
@[simp] theorem callers_remember (findings : Findings) (position : Nat) (frame : Frame)
    (stop : Item) (node : Nat) :
    (findings.remember position frame stop).stackGraph.callers node =
      findings.stackGraph.callers node := by
  unfold remember
  split
  · exact StackGraph.callers_addEmptyReturn _ _ _ _
  · rfl

/-- A stop at the position where its call began is remembered on its node. -/
theorem mem_emptyReturns_remember {findings : Findings} {frame : Frame} {stop : Item}
    (here : findings.stackGraph.frame? stop.stack = some frame) (position : Nat) (other : Item)
    (node : Nat) :
    other ∈ (findings.remember position frame stop).stackGraph.emptyReturns node ↔
      other ∈ findings.stackGraph.emptyReturns node ∨
        frame.position = position ∧ node = stop.stack ∧ other = stop := by
  have known := StackGraph.lt_size_of_frame? here
  by_cases began : frame.position = position
  · rw [remember, if_pos began, StackGraph.emptyReturns_addEmptyReturn]
    by_cases same : node = stop.stack
    · subst same
      simp [known, began, or_comm]
    · simp [same]
  · rw [remember, if_neg began]
    simp [began]

/-- Findings grow by an empty return. -/
theorem extends_remember (findings : Findings) (position : Nat) (frame : Frame) (stop : Item) :
    findings.Extends (findings.remember position frame stop) := by
  unfold remember
  split
  · -- only the empty returns of the node of the stop are others than before
    refine ⟨fun _ => List.prefix_rfl, fun _ _ => id, ?_, ?_, List.prefix_rfl⟩
    · intro node
      exact (StackGraph.callers_addEmptyReturn _ _ _ _).symm ▸ List.prefix_rfl
    · intro node
      rw [StackGraph.emptyReturns_addEmptyReturn]
      split
      · rename_i here
        rw [here.1]
        exact Enumeration.toList_prefix_insert _ _
      · exact List.prefix_rfl
  · exact Extends.refl findings

/-! ## Calls and returns -/

/-- Go on behind a call for every pair of a stop and a caller, one after the other. -/
def returnAll (position : Nat) (frame : Frame) (returns : List (Item × Item))
    (findings : Findings) : Findings :=
  returns.foldl (fun findings pair => findings.returnTo position frame pair.1 pair.2) findings

@[simp] theorem returnAll_nil (position : Nat) (frame : Frame) (findings : Findings) :
    findings.returnAll position frame [] = findings := rfl

@[simp] theorem returnAll_cons (position : Nat) (frame : Frame) (stop caller : Item)
    (rest : List (Item × Item)) (findings : Findings) :
    findings.returnAll position frame ((stop, caller) :: rest) =
      (findings.returnTo position frame stop caller).returnAll position frame rest := rfl

/-- Returns leave the stacks alone. -/
@[simp] theorem stackGraph_returnAll (position : Nat) (frame : Frame) (returns : List (Item × Item))
    (findings : Findings) :
    (findings.returnAll position frame returns).stackGraph = findings.stackGraph := by
  induction returns generalizing findings with
  | nil => rfl
  | cons pair rest ih =>
    rw [returnAll_cons, ih, returnTo, stackGraph_discover]

/-- Findings grow by returns. -/
theorem extends_returnAll (position : Nat) (frame : Frame) (returns : List (Item × Item))
    (findings : Findings) : findings.Extends (findings.returnAll position frame returns) := by
  induction returns generalizing findings with
  | nil => exact Extends.refl findings
  | cons pair rest ih => exact (extends_discover findings _ _ _).trans (ih _)

/-- Returns find the callers in the state that follows, and nothing else. -/
theorem has_returnAll (position other : Nat) (frame : Frame) (returns : List (Item × Item))
    (item : Item) (findings : Findings) :
    (findings.returnAll position frame returns).Has other item ↔
      findings.Has other item ∨
        other = position ∧ ∃ pair ∈ returns, item = pair.2.withState frame.follow := by
  induction returns generalizing findings with
  | nil => simp
  | cons pair rest ih =>
    rw [returnAll_cons, ih, returnTo, has_discover]
    simp only [List.mem_cons, exists_eq_or_imp, or_assoc, and_or_left]

/-- Enter a call: register the caller and find the start of the rule on the node of the frame. -/
def enter (position start : Nat) (frame : Frame) (caller : Item) (findings : Findings) :
    Findings :=
  (findings.register frame caller).discover position
    ⟨start, position, (findings.stackGraph.push frame).1⟩ (.predict caller frame.rule)

/-- The returns that a new caller of a frame makes up for. -/
def lateReturns (graph : StackGraph) (frame : Frame) (caller : Item) : List (Item × Item) :=
  let node := (graph.push frame).1
  if (graph.callers node).contains caller then []
  else (graph.emptyReturns node).toList.map fun stop => (stop, caller)

/-- A new caller goes on from every empty return of the node, and a known one from none. -/
theorem mem_lateReturns {graph : StackGraph} {frame : Frame} {caller : Item}
    {pair : Item × Item} :
    pair ∈ lateReturns graph frame caller ↔
      caller ∉ graph.callers (graph.push frame).1 ∧
        pair.1 ∈ graph.emptyReturns (graph.push frame).1 ∧ pair.2 = caller := by
  obtain ⟨stop, another⟩ := pair
  rw [Enumeration.mem_iff_contains]
  by_cases known : (graph.callers (graph.push frame).1).contains caller = true
  · -- a caller that is known has gone on from all of them
    simp [lateReturns, known]
  · rw [and_iff_right known]
    simp only [lateReturns, if_neg known, List.mem_map, Enumeration.mem_toList, Prod.mk.injEq]
    constructor
    · rintro ⟨stop, remembered, rfl, rfl⟩
      exact ⟨remembered, rfl⟩
    · rintro ⟨remembered, rfl⟩
      exact ⟨stop, remembered, rfl, rfl⟩

/-- A prediction enters the call, and if the caller is new it makes up for the returns missed. -/
theorem predict_eq (start : Nat) (frame : Frame) (caller : Item) (findings : Findings) :
    findings.predict frame.position start frame.follow frame.rule caller =
      (findings.enter frame.position start frame caller).returnAll frame.position frame
        (lateReturns findings.stackGraph frame caller) := by
  -- the node is there once the frame is pushed, so the caller is lacking exactly if it is not
  -- listed
  have known : (findings.stackGraph.push frame).1 < (findings.stackGraph.push frame).2.nodes.size :=
    StackGraph.lt_size_of_frame? (StackGraph.frame?_push_self _ _)
  have lacks : (findings.stackGraph.push frame).2.lacksCaller (findings.stackGraph.push frame).1
      caller = !(findings.stackGraph.callers (findings.stackGraph.push frame).1).contains
        caller := by
    rw [StackGraph.lacksCaller, StackGraph.callers_push, decide_eq_true known, Bool.true_and]
  unfold predict enter lateReturns register
  simp only [lacks, discover_withGraph]
  cases listed : (findings.stackGraph.callers (findings.stackGraph.push frame).1).contains caller
  · simp [returnAll, List.foldl_map, StackGraph.register, Enumeration.toList]
  · -- registering a caller that is listed changes nothing but the frame pushed
    rw [StackGraph.register_of_mem (Enumeration.mem_iff_contains.2 listed)]
    simp

/-- Outside all calls a rule that stops leads nowhere. -/
theorem complete_of_frame?_eq_none {findings : Findings} {stop : Item}
    (outside : findings.stackGraph.frame? stop.stack = none) (position rule : Nat) :
    findings.complete position stop rule = findings := by
  simp [complete, outside]

/-- A rule that stops inside a call of its own is remembered and returns to all callers known. -/
theorem complete_eq {findings : Findings} {stop : Item} {frame : Frame}
    (here : findings.stackGraph.frame? stop.stack = some frame) (position : Nat) :
    findings.complete position stop frame.rule =
      (findings.remember position frame stop).returnAll position frame
        ((findings.stackGraph.callers stop.stack).toList.map fun caller => (stop, caller)) := by
  have callers := callers_remember findings position frame stop stop.stack
  rw [← callers]
  simp [complete, here, remember, returnAll, List.foldl_map, Enumeration.toList]

/-- A rule that stops inside a call of another rule is noted and left aside. -/
theorem complete_of_ne {findings : Findings} {stop : Item} {frame : Frame} {rule : Nat}
    (here : findings.stackGraph.frame? stop.stack = some frame) (different : frame.rule ≠ rule)
    (position : Nat) :
    findings.complete position stop rule = findings.note (.strayStop stop rule frame.rule) := by
  simp [complete, here, different]

/-- **What a rule that stops leads to:** to nothing outside all calls, to all callers known inside a
call of its own, and to a note inside a call of another rule. -/
theorem complete_cases (position : Nat) (stop : Item) (rule : Nat) (findings : Findings) :
    findings.complete position stop rule = findings ∨
      (∃ frame, findings.stackGraph.frame? stop.stack = some frame ∧ frame.rule = rule ∧
        findings.complete position stop rule =
          (findings.remember position frame stop).returnAll position frame
            ((findings.stackGraph.callers stop.stack).toList.map fun caller => (stop, caller))) ∨
      ∃ called, findings.complete position stop rule =
        findings.note (.strayStop stop rule called) := by
  cases here : findings.stackGraph.frame? stop.stack with
  | none => exact Or.inl (complete_of_frame?_eq_none here position rule)
  | some frame =>
    by_cases same : frame.rule = rule
    · subst same
      exact Or.inr (Or.inl ⟨frame, rfl, rfl, complete_eq here position⟩)
    · exact Or.inr (Or.inr ⟨frame.rule, complete_of_ne here same position⟩)

/-- A rule that stops enters no calls. -/
@[simp] theorem frame?_complete (position : Nat) (stop : Item) (rule node : Nat)
    (findings : Findings) :
    (findings.complete position stop rule).stackGraph.frame? node =
      findings.stackGraph.frame? node := by
  rcases complete_cases position stop rule findings with
    same | ⟨frame, -, -, returns⟩ | ⟨called, noted⟩
  · rw [same]
  · rw [returns, stackGraph_returnAll, frame?_remember]
  · rw [noted, stackGraph_note]

/-- A rule that stops registers no callers. -/
@[simp] theorem callers_complete (position : Nat) (stop : Item) (rule node : Nat)
    (findings : Findings) :
    (findings.complete position stop rule).stackGraph.callers node =
      findings.stackGraph.callers node := by
  rcases complete_cases position stop rule findings with
    same | ⟨frame, -, -, returns⟩ | ⟨called, noted⟩
  · rw [same]
  · rw [returns, stackGraph_returnAll, callers_remember]
  · rw [noted, stackGraph_note]

/-- Findings grow when a call is entered. -/
theorem extends_enter (position start : Nat) (frame : Frame) (caller : Item)
    (findings : Findings) : findings.Extends (findings.enter position start frame caller) :=
  (extends_register findings frame caller).trans (extends_discover _ _ _ _)

/-- Findings grow by a prediction. -/
theorem extends_predict (position start follow rule : Nat) (caller : Item) (findings : Findings) :
    findings.Extends (findings.predict position start follow rule caller) := by
  rw [predict_eq start ⟨follow, rule, position⟩]
  exact (extends_enter _ _ _ _ _).trans (extends_returnAll _ _ _ _)

/-- Findings grow by a completion. -/
theorem extends_complete (position : Nat) (stop : Item) (rule : Nat) (findings : Findings) :
    findings.Extends (findings.complete position stop rule) := by
  rcases complete_cases position stop rule findings with
    same | ⟨frame, -, -, returns⟩ | ⟨called, noted⟩
  · rw [same]
  · rw [returns]
    exact (extends_remember _ _ _ _).trans (extends_returnAll _ _ _ _)
  · rw [noted]
    exact extends_note findings rfl

end Findings

end TransitionNetworks
