import TransitionNetworks.Proofs.Renumbering.Numberings
import TransitionNetworks.Proofs.Run.Order

/-! # Runs do not depend on the numbering

Findings are renumbered as others (`Findings.RenumberedAs`) if these list the renumbered items,
frames, callers, empty returns and finds, all in the same order. The operations of a run keep in
step: they look states and rules up and ask whether ids are the same, and never how ids compare. So
they lead from findings renumbered as others to findings renumbered as others, one operation after
the other up to a whole sweep (`Findings.RenumberedAs.sweep`).

The one thing that a run reads off a whole network is the capacity of a position, which is another
for another network; so closing a position is compared through the closing loop, which knows of no
capacity (`ClosingLoop.renumber`). -/

namespace TransitionNetworks

universe u v

namespace Enumeration

variable {α : Type u} {β : Type v} [Ord α] [Std.TransOrd α] [Std.LawfulEqOrd α] [Ord β]
  [Std.TransOrd β] [Std.LawfulEqOrd β] {f : α → β} {s : Enumeration α} {t : Enumeration β}

/-- An enumeration maps to one that lists the images of its elements in the same order. -/
def MapsTo (f : α → β) (s : Enumeration α) (t : Enumeration β) : Prop :=
  t.toList = s.toList.map f

/-- Empty enumerations are mapped to each other. -/
theorem mapsTo_empty (f : α → β) : (∅ : Enumeration α).MapsTo f ∅ := rfl

/-- Enumerations that are mapped to each other are of one size. -/
theorem MapsTo.size_eq (maps : s.MapsTo f t) : t.size = s.size := by
  rw [← length_toList, ← length_toList, maps, List.length_map]

/-- Enumerations that are mapped to each other are so number by number. -/
theorem MapsTo.get?_eq (maps : s.MapsTo f t) (n : Nat) : t.get? n = (s.get? n).map f := by
  rw [← getElem?_toList, ← getElem?_toList, maps, List.getElem?_map]

/-- Under a map that tells elements apart, images are listed exactly if the elements are. -/
theorem MapsTo.contains_eq (maps : s.MapsTo f t) (injective : Function.Injective f) (x : α) :
    t.contains (f x) = s.contains x := by
  rw [Bool.eq_iff_iff, contains_iff_mem, contains_iff_mem, maps,
    List.mem_map_of_injective injective]

/-- A new element is mapped to a new element, since the map mixes up none. -/
theorem MapsTo.insert (maps : s.MapsTo f t) (injective : Function.Injective f) (x : α) :
    (s.insert x).MapsTo f (t.insert (f x)) := by
  rw [MapsTo, toList_insert, toList_insert, maps.contains_eq injective, maps]
  split
  · rfl
  · rw [List.map_append, List.map_singleton]

end Enumeration

/-! ## Stacks -/

namespace StackGraph

/-- **Renumbered stacks.** The nodes have the renumbered frames, callers and empty returns. -/
structure RenumberedAs (numbering : Numbering) (graph image : StackGraph) : Prop where
  /-- The frames are pushed in the same order. -/
  frames : graph.frames.MapsTo (Frame.renumber numbering) image.frames
  /-- The callers of a node are registered in the same order. -/
  callers : ∀ node, (graph.callers node).MapsTo (Item.renumber numbering) (image.callers node)
  /-- The empty returns of a node are remembered in the same order. -/
  emptyReturns : ∀ node,
    (graph.emptyReturns node).MapsTo (Item.renumber numbering) (image.emptyReturns node)

variable {numbering : Numbering} {graph image : StackGraph}

/-- In the beginning there is nothing to renumber. -/
theorem renumberedAs_initial (numbering : Numbering) : initial.RenumberedAs numbering initial where
  frames := Enumeration.mapsTo_empty _
  callers node := by
    rw [callers_initial]
    exact Enumeration.mapsTo_empty _
  emptyReturns node := by
    rw [emptyReturns_initial]
    exact Enumeration.mapsTo_empty _

namespace RenumberedAs

/-- Renumbering keeps the nodes. -/
theorem size_eq (renumbered : graph.RenumberedAs numbering image) : image.size = graph.size := by
  have same := renumbered.frames.size_eq
  have size : graph.size = graph.frames.size + 1 := graph.size_nodes
  have size' : image.size = image.frames.size + 1 := image.size_nodes
  omega

/-- The frame of a node is renumbered. -/
theorem frame?_eq (renumbered : graph.RenumberedAs numbering image) (node : Nat) :
    image.frame? node = (graph.frame? node).map (Frame.renumber numbering) := by
  cases node with
  | zero => rfl
  | succ place => exact renumbered.frames.get?_eq place

/-- A renumbered frame has the node that the frame has. -/
theorem node?_eq (renumbered : graph.RenumberedAs numbering image)
    (injective : numbering.Injective) (frame : Frame) :
    image.node? (frame.renumber numbering) = graph.node? frame := by
  refine Option.ext fun node => ?_
  rw [node?_eq_some_iff, node?_eq_some_iff, renumbered.frame?_eq, Option.map_eq_some_iff]
  constructor
  · rintro ⟨other, here, same⟩
    rwa [← injective.frame same]
  · intro here
    exact ⟨frame, here, rfl⟩

/-- A push gives out the same node and leaves renumbered stacks. -/
theorem push (renumbered : graph.RenumberedAs numbering image) (injective : numbering.Injective)
    (frame : Frame) :
    (image.push (frame.renumber numbering)).1 = (graph.push frame).1 ∧
      (graph.push frame).2.RenumberedAs numbering (image.push (frame.renumber numbering)).2 := by
  have same := renumbered.node?_eq injective frame
  have callers : ∀ node, ((graph.push frame).2.callers node).MapsTo (Item.renumber numbering)
      ((image.push (frame.renumber numbering)).2.callers node) := by
    intro node
    rw [callers_push, callers_push]
    exact renumbered.callers node
  have emptyReturns : ∀ node, ((graph.push frame).2.emptyReturns node).MapsTo
      (Item.renumber numbering)
      ((image.push (frame.renumber numbering)).2.emptyReturns node) := by
    intro node
    rw [emptyReturns_push, emptyReturns_push]
    exact renumbered.emptyReturns node
  cases known : graph.node? frame with
  | some node =>
    rw [known] at same
    rw [push_of_node? known, push_of_node? same]
    exact ⟨rfl, renumbered⟩
  | none =>
    rw [known] at same
    obtain ⟨given, frames, -⟩ := push_of_node?_eq_none known
    obtain ⟨given', frames', -⟩ := push_of_node?_eq_none same
    refine ⟨by rw [given, given', renumbered.size_eq], ?_, callers, emptyReturns⟩
    rw [frames, frames']
    exact renumbered.frames.insert injective.frame frame

/-- A caller is registered on both sides, or known on both. -/
theorem addCaller (renumbered : graph.RenumberedAs numbering image)
    (injective : numbering.Injective) (node : Nat) (caller : Item) :
    (graph.addCaller node caller).RenumberedAs numbering
      (image.addCaller node (caller.renumber numbering)) where
  frames := renumbered.frames
  callers other := by
    rw [callers_addCaller, callers_addCaller, renumbered.size_eq]
    split
    · exact (renumbered.callers node).insert injective.item caller
    · exact renumbered.callers other
  emptyReturns other := by
    rw [emptyReturns_addCaller, emptyReturns_addCaller]
    exact renumbered.emptyReturns other

/-- An empty return is remembered on both sides, or known on both. -/
theorem addEmptyReturn (renumbered : graph.RenumberedAs numbering image)
    (injective : numbering.Injective) (node : Nat) (stop : Item) :
    (graph.addEmptyReturn node stop).RenumberedAs numbering
      (image.addEmptyReturn node (stop.renumber numbering)) where
  frames := renumbered.frames
  callers other := by
    rw [callers_addEmptyReturn, callers_addEmptyReturn]
    exact renumbered.callers other
  emptyReturns other := by
    rw [emptyReturns_addEmptyReturn, emptyReturns_addEmptyReturn, renumbered.size_eq]
    split
    · exact (renumbered.emptyReturns node).insert injective.item stop
    · exact renumbered.emptyReturns other

/-- A call is registered on both sides, on the same node. -/
theorem register (renumbered : graph.RenumberedAs numbering image)
    (injective : numbering.Injective) (frame : Frame) (caller : Item) :
    (graph.register frame caller).RenumberedAs numbering
      (image.register (frame.renumber numbering) (caller.renumber numbering)) := by
  obtain ⟨node, pushed⟩ := renumbered.push injective frame
  rw [StackGraph.register, StackGraph.register, node]
  exact pushed.addCaller injective _ caller

end RenumberedAs

end StackGraph

/-! ## Findings -/

namespace Findings

/-- **Renumbered findings.** The items of every position, the stacks and the finds are the
renumbered ones, in the same order. -/
structure RenumberedAs (numbering : Numbering) (findings image : Findings) : Prop where
  /-- The items of a position are found in the same order. -/
  items : ∀ position, (findings.chart.itemsAt position).MapsTo (Item.renumber numbering)
    (image.chart.itemsAt position)
  /-- The stacks are renumbered. -/
  stackGraph : findings.stackGraph.RenumberedAs numbering image.stackGraph
  /-- The finds are in the same order. -/
  finds : image.finds =
    findings.finds.map (Prod.map (Place.renumber numbering) (Provenance.renumber numbering))

variable {numbering : Numbering} {network whole : Network} {start start' : Nat}
  {input input' : List Token} {findings image later : Findings} {position : Nat}

/-- Before a run there is nothing to renumber. -/
theorem renumberedAs_initial (numbering : Numbering) : initial.RenumberedAs numbering initial where
  items position := by
    have none : initial.chart.itemsAt position = ∅ := Chart.itemsAt_empty position
    rw [none]
    exact Enumeration.mapsTo_empty _
  stackGraph := StackGraph.renumberedAs_initial numbering
  finds := rfl

namespace RenumberedAs

/-- An item is known on both sides or on neither. -/
theorem contains_eq (renumbered : findings.RenumberedAs numbering image)
    (injective : numbering.Injective) (position : Nat) (item : Item) :
    image.chart.contains position (item.renumber numbering) =
      findings.chart.contains position item :=
  (renumbered.items position).contains_eq injective.item item

/-- A position holds as many items on both sides. -/
theorem countAt_eq (renumbered : findings.RenumberedAs numbering image) (position : Nat) :
    image.chart.countAt position = findings.chart.countAt position :=
  (renumbered.items position).size_eq

/-- Findings stay renumbered with other graphs that are. -/
theorem withGraph (renumbered : findings.RenumberedAs numbering image) {graph graph' : StackGraph}
    (graphs : graph.RenumberedAs numbering graph') :
    ({ findings with stackGraph := graph } : Findings).RenumberedAs numbering
      { image with stackGraph := graph' } :=
  ⟨renumbered.items, graphs, renumbered.finds⟩

/-- What is noted beside the finds makes no difference. -/
theorem note_left (renumbered : findings.RenumberedAs numbering image) {occurrence : Occurrence}
    (noFind : occurrence.find? = none) :
    (findings.note occurrence).RenumberedAs numbering image where
  items := renumbered.items
  stackGraph := renumbered.stackGraph
  finds := by
    rw [finds_note _ noFind]
    exact renumbered.finds

/-- What is noted beside the renumbered finds makes no difference. -/
theorem note_right (renumbered : findings.RenumberedAs numbering image) {occurrence : Occurrence}
    (noFind : occurrence.find? = none) :
    findings.RenumberedAs numbering (image.note occurrence) where
  items := renumbered.items
  stackGraph := renumbered.stackGraph
  finds := by
    rw [finds_note _ noFind]
    exact renumbered.finds

/-- An item is found on both sides, or known on both. -/
theorem discover (renumbered : findings.RenumberedAs numbering image)
    (injective : numbering.Injective) (position : Nat) (item : Item) (why : Provenance) :
    (findings.discover position item why).RenumberedAs numbering
      (image.discover position (item.renumber numbering) (why.renumber numbering)) where
  items other := by
    rw [itemsAt_discover, itemsAt_discover]
    split
    · exact (renumbered.items position).insert injective.item item
    · exact renumbered.items other
  stackGraph := by
    rw [stackGraph_discover, stackGraph_discover]
    exact renumbered.stackGraph
  finds := by
    rw [finds_discover, finds_discover, renumbered.contains_eq injective, renumbered.finds]
    split
    · rfl
    · rw [List.map_append, List.map_singleton]
      rfl

/-! ## Calls and returns -/

/-- Returns are made on both sides, one for one. -/
theorem returnAll (renumbered : findings.RenumberedAs numbering image)
    (injective : numbering.Injective) (position : Nat) (frame : Frame)
    (returns : List (Item × Item)) :
    (findings.returnAll position frame returns).RenumberedAs numbering
      (image.returnAll position (frame.renumber numbering)
        (returns.map (Prod.map (Item.renumber numbering) (Item.renumber numbering)))) := by
  induction returns generalizing findings image with
  | nil => exact renumbered
  | cons pair rest ih => exact ih (renumbered.discover injective _ _ _)

/-- An empty return is remembered on both sides. -/
theorem remember (renumbered : findings.RenumberedAs numbering image)
    (injective : numbering.Injective) (position : Nat) (frame : Frame) (stop : Item) :
    (findings.remember position frame stop).RenumberedAs numbering
      (image.remember position (frame.renumber numbering) (stop.renumber numbering)) := by
  by_cases began : frame.position = position
  · have began' : (frame.renumber numbering).position = position := began
    rw [Findings.remember, Findings.remember, if_pos began, if_pos began']
    exact renumbered.withGraph (renumbered.stackGraph.addEmptyReturn injective _ _)
  · have began' : (frame.renumber numbering).position ≠ position := began
    rw [Findings.remember, Findings.remember, if_neg began, if_neg began']
    exact renumbered

/-- A call is entered on both sides. -/
theorem enter (renumbered : findings.RenumberedAs numbering image)
    (injective : numbering.Injective) (position entry : Nat) (frame : Frame) (caller : Item) :
    (findings.enter position entry frame caller).RenumberedAs numbering
      (image.enter position (numbering.state entry) (frame.renumber numbering)
        (caller.renumber numbering)) := by
  have registered : (findings.register frame caller).RenumberedAs numbering
      (image.register (frame.renumber numbering) (caller.renumber numbering)) :=
    renumbered.withGraph (renumbered.stackGraph.register injective frame caller)
  obtain ⟨node, -⟩ := renumbered.stackGraph.push injective frame
  rw [Findings.enter, Findings.enter, node]
  exact registered.discover injective position _ _

/-- A caller makes up for the same returns. -/
theorem lateReturns_eq (renumbered : findings.RenumberedAs numbering image)
    (injective : numbering.Injective) (frame : Frame) (caller : Item) :
    lateReturns image.stackGraph (frame.renumber numbering) (caller.renumber numbering) =
      (lateReturns findings.stackGraph frame caller).map
        (Prod.map (Item.renumber numbering) (Item.renumber numbering)) := by
  obtain ⟨node, -⟩ := renumbered.stackGraph.push injective frame
  have known := (renumbered.stackGraph.callers (findings.stackGraph.push frame).1).contains_eq
    injective.item caller
  have returns := renumbered.stackGraph.emptyReturns (findings.stackGraph.push frame).1
  simp only [lateReturns, node, known]
  split
  · rfl
  · rw [returns, List.map_map, List.map_map]
    rfl

/-- A rule is predicted on both sides. -/
theorem predict (renumbered : findings.RenumberedAs numbering image)
    (injective : numbering.Injective) (position entry follow rule : Nat) (caller : Item) :
    (findings.predict position entry follow rule caller).RenumberedAs numbering
      (image.predict position (numbering.state entry) (numbering.state follow)
        (numbering.rule rule) (caller.renumber numbering)) := by
  have entered := renumbered.enter injective position entry ⟨follow, rule, position⟩ caller
  have late : lateReturns image.stackGraph
      ⟨numbering.state follow, numbering.rule rule, position⟩ (caller.renumber numbering) = _ :=
    renumbered.lateReturns_eq injective ⟨follow, rule, position⟩ caller
  rw [predict_eq entry ⟨follow, rule, position⟩,
    predict_eq (numbering.state entry) ⟨numbering.state follow, numbering.rule rule, position⟩,
    late]
  exact entered.returnAll injective position ⟨follow, rule, position⟩ _

/-- A rule that stops is completed on both sides. -/
theorem complete (renumbered : findings.RenumberedAs numbering image)
    (injective : numbering.Injective) (position : Nat) (stop : Item) (rule : Nat) :
    (findings.complete position stop rule).RenumberedAs numbering
      (image.complete position (stop.renumber numbering) (numbering.rule rule)) := by
  have there : image.stackGraph.frame? (stop.renumber numbering).stack =
      (findings.stackGraph.frame? stop.stack).map (Frame.renumber numbering) :=
    renumbered.stackGraph.frame?_eq stop.stack
  cases here : findings.stackGraph.frame? stop.stack with
  | none =>
    rw [here] at there
    rw [complete_of_frame?_eq_none here, complete_of_frame?_eq_none there]
    exact renumbered
  | some frame =>
    rw [here] at there
    by_cases same : frame.rule = rule
    · subst same
      have callers := renumbered.stackGraph.callers stop.stack
      have completes := complete_eq there position
      rw [Item.stack_renumber, callers, List.map_map] at completes
      have returned := (renumbered.remember injective position frame stop).returnAll injective
        position frame ((findings.stackGraph.callers stop.stack).toList.map fun caller =>
          (stop, caller))
      rw [List.map_map] at returned
      rw [complete_eq here]
      exact completes.symm ▸ returned
    · have different : (frame.renumber numbering).rule ≠ numbering.rule rule :=
        fun equal => same (injective.rule equal)
      rw [complete_of_ne here same, complete_of_ne there different]
      exact (renumbered.note_left rfl).note_right rfl

/-! ## Closing a position -/

/-- A transition without a token is followed on both sides. -/
theorem follow (renumbered : findings.RenumberedAs numbering image)
    (injective : numbering.Injective) (position : Nat) (item : Item) (transition : Transition) :
    (findings.follow position item transition).RenumberedAs numbering
      (image.follow position (item.renumber numbering) (transition.renumber numbering)) := by
  cases transition with
  | terminal => exact renumbered
  | call start follow rule => exact renumbered.predict injective _ _ _ _ _
  | epsilon kind target => exact renumbered.discover injective _ _ _

/-- Loops keep in step if their bodies do. -/
theorem foldl {α β : Type} {g : α → β} {body : Findings → α → Findings}
    {body' : Findings → β → Findings} (elements : List α)
    (inStep : ∀ x ∈ elements, ∀ findings image, findings.RenumberedAs numbering image →
      (body findings x).RenumberedAs numbering (body' image (g x)))
    (renumbered : findings.RenumberedAs numbering image) :
    (elements.foldl body findings).RenumberedAs numbering
      ((elements.map g).foldl body' image) := by
  rw [List.foldl_map]
  exact List.foldl_rel renumbered fun x member before before' first =>
    inStep x member before before' first

/-- Items in renumbered states are expanded in step. -/
theorem expand (renumbered : findings.RenumberedAs numbering image)
    (injective : numbering.Injective) (embeds : network.Embeds numbering whole) (position : Nat)
    {item : Item} {state : State} (here : network.state? item.state = some state) :
    (findings.expand network position item).RenumberedAs numbering
      (image.expand whole position (item.renumber numbering)) := by
  have there : whole.state? (item.renumber numbering).state = some (state.renumber numbering) :=
    embeds.state? here
  have stops := state.stopRule?_renumber numbering
  cases stop : state.stopRule? with
  | some rule =>
    rw [stop] at stops
    rw [expand_eq_complete here stop, expand_eq_complete there stops]
    exact renumbered.complete injective position item rule
  | none =>
    rw [stop] at stops
    rw [expand_eq_foldl here stop, expand_eq_foldl there stops]
    exact renumbered.foldl state.transitions fun transition _ _ _ before =>
      before.follow injective position item transition

end RenumberedAs

end Findings

/-- **The closing loop keeps in step.** From renumbered findings it comes to renumbered findings. -/
theorem ClosingLoop.renumber {numbering : Numbering} {network whole : Network} {start : Nat}
    {input : List Token} {findings later image : Findings} {position cursor : Nat}
    (loop : ClosingLoop network position cursor findings later) (injective : numbering.Injective)
    (embeds : network.Embeds numbering whole) (linked : findings.Linked network start input)
    (renumbered : findings.RenumberedAs numbering image) :
    ∃ imageLater, ClosingLoop whole position cursor image imageLater ∧
      later.RenumberedAs numbering imageLater := by
  induction loop generalizing image with
  | @stop cursor findings ended =>
    have ended' : image.chart.item? position cursor = none := by
      rw [Chart.item?, (renumbered.items position).get?_eq]
      exact Option.map_eq_none_iff.2 ended
    exact ⟨image, .stop ended', renumbered⟩
  | @next cursor findings later item here rest ih =>
    have here' : image.chart.item? position cursor = some (item.renumber numbering) := by
      rw [Chart.item?, (renumbered.items position).get?_eq]
      exact Option.map_eq_some_iff.2 ⟨item, here, rfl⟩
    have found : findings.Has position item := Enumeration.mem_iff_exists_get?.2 ⟨cursor, here⟩
    obtain ⟨state, inState⟩ := linked.inState position item found
    obtain ⟨imageLater, rest', renumbered'⟩ := ih (linked.closing (linked.expand_closing found))
      (renumbered.expand injective embeds position inState)
    exact ⟨imageLater, .next here' rest', renumbered'⟩

namespace Findings

variable {numbering : Numbering} {network whole : Network} {start start' : Nat}
  {input input' : List Token} {findings image : Findings} {position : Nat} {token : Token}

namespace RenumberedAs

/-- Closing a position keeps in step, since both closings go through the closing loop to its end. -/
theorem close (renumbered : findings.RenumberedAs numbering image)
    (injective : numbering.Injective) (embeds : network.Embeds numbering whole)
    (linked : findings.Linked network start input) (linked' : image.Linked whole start' input')
    (position : Nat) :
    (findings.close network position).RenumberedAs numbering (image.close whole position) := by
  obtain ⟨imageLater, loop, closed⟩ :=
    (linked.loop_close position).renumber injective embeds linked renumbered
  rwa [loop.unique (linked'.loop_close position)] at closed

/-! ## Sweeps -/

/-- A token is consumed on both sides, by the same matcher. -/
theorem consume (renumbered : findings.RenumberedAs numbering image)
    (injective : numbering.Injective) (position : Nat) (token : Token) (item : Item)
    (transition : Transition) :
    (findings.consume position token item transition).RenumberedAs numbering
      (image.consume position token (item.renumber numbering) (transition.renumber numbering)) := by
  cases transition with
  | call => exact renumbered
  | epsilon => exact renumbered
  | terminal matcher target =>
    by_cases accepts : matcher.accepts token = true
    · simp only [Findings.consume, Transition.renumber, if_pos accepts]
      exact renumbered.discover injective _ _ _
    · simp only [Findings.consume, Transition.renumber, if_neg accepts]
      exact renumbered

/-- Items in renumbered states are scanned from in step. -/
theorem scan (renumbered : findings.RenumberedAs numbering image)
    (injective : numbering.Injective) (embeds : network.Embeds numbering whole) (position : Nat)
    (token : Token) {item : Item} {state : State} (here : network.state? item.state = some state) :
    (findings.scan network position token item).RenumberedAs numbering
      (image.scan whole position token (item.renumber numbering)) := by
  have there : whole.state? (item.renumber numbering).state = some (state.renumber numbering) :=
    embeds.state? here
  have stops := state.stopRule?_renumber numbering
  unfold Findings.scan
  rw [here, there]
  cases stop : state.stopRule? with
  | some rule =>
    rw [stop] at stops
    simp only [stop, stops]
    exact renumbered
  | none =>
    rw [stop] at stops
    simp only [stop, stops]
    exact renumbered.foldl state.transitions fun transition _ _ _ before =>
      before.consume injective position token item transition

/-- A position is scanned on both sides. -/
theorem scanAll (renumbered : findings.RenumberedAs numbering image)
    (injective : numbering.Injective) (embeds : network.Embeds numbering whole)
    (linked : findings.Linked network start input) (position : Nat) (token : Token) :
    (findings.scanAll network position token).RenumberedAs numbering
      (image.scanAll whole position token) := by
  have items := renumbered.items position
  rw [Findings.scanAll, Findings.scanAll, ← Array.foldl_toList, ← Array.foldl_toList]
  rw [Enumeration.MapsTo, Enumeration.toList, Enumeration.toList] at items
  rw [items]
  refine renumbered.foldl _ ?_
  intro item found before image first
  obtain ⟨state, inState⟩ := linked.inState position item found
  exact first.scan injective embeds position token inState

/-- A visit keeps in step. -/
theorem visit (renumbered : findings.RenumberedAs numbering image)
    (injective : numbering.Injective) (embeds : network.Embeds numbering whole)
    (linked : findings.Linked network start input) (linked' : image.Linked whole start' input')
    (position : Nat) (token : Token) :
    (findings.visit network position token).RenumberedAs numbering
      (image.visit whole position token) := by
  have closed := renumbered.close injective embeds linked linked' position
  have linkedClosed := linked.closing (linked.close_closing position)
  have scanned := closed.scanAll injective embeds linkedClosed position token
  exact (scanned.note_left rfl).note_right rfl

/-- **A sweep keeps in step.** -/
theorem sweep {rest : List Token} (renumbered : findings.RenumberedAs numbering image)
    (injective : numbering.Injective) (embeds : network.Embeds numbering whole)
    (swept : findings.Swept network start input position)
    (swept' : image.Swept whole start' input position) (unread : input.drop position = rest) :
    (findings.sweep network position rest).RenumberedAs numbering
      (image.sweep whole position rest) := by
  induction rest generalizing findings image position with
  | nil => exact renumbered
  | cons token rest ih =>
    obtain ⟨read, left⟩ := getElem?_and_drop_of_drop_eq_cons unread
    have visited := renumbered.visit injective embeds swept.linked swept'.linked position token
    have count := visited.countAt_eq (position + 1)
    by_cases none : (findings.visit network position token).chart.countAt (position + 1) = 0
    · rw [none] at count
      simp only [Findings.sweep, none, count, if_true]
      exact visited
    · have some : (image.visit whole position token).chart.countAt (position + 1) ≠ 0 := by
        rwa [count]
      simp only [Findings.sweep, none, some, if_false]
      exact ih visited (swept.visit read) (swept'.visit read) left

/-- Settling the last position keeps in step. -/
theorem settle (renumbered : findings.RenumberedAs numbering image)
    (injective : numbering.Injective) (embeds : network.Embeds numbering whole)
    (linked : findings.Linked network start input) (linked' : image.Linked whole start' input')
    (last : Nat) :
    (findings.settle network last).RenumberedAs numbering (image.settle whole last) := by
  unfold Findings.settle
  rw [renumbered.countAt_eq]
  split
  · exact renumbered
  · exact renumbered.close injective embeds linked linked' (last + 1)

/-- What is noted as the verdict makes no difference. -/
theorem noteVerdict (renumbered : findings.RenumberedAs numbering image)
    (accepting accepting' : Option Place) (last last' : Nat) :
    (findings.noteVerdict accepting last).RenumberedAs numbering
      (image.noteVerdict accepting' last') := by
  cases accepting <;> cases accepting' <;> exact (renumbered.note_left rfl).note_right rfl

/-- What accepts is found at the same position. -/
theorem acceptance?_eq (renumbered : findings.RenumberedAs numbering image)
    (injective : numbering.Injective) (accept : Item) (last : Nat) :
    image.acceptance? (accept.renumber numbering) last =
      (findings.acceptance? accept last).map (Place.renumber numbering) := by
  simp only [Findings.acceptance?, renumbered.contains_eq injective, Option.map_map]
  rfl

end RenumberedAs

/-- Runs begin in step, whatever tokens they leave aside. -/
theorem renumberedAs_seeded (injective : numbering.Injective) {rule named : Rule}
    (starts : named.start = numbering.state rule.start) (tokens tokens' : List Token) :
    (seeded rule tokens).RenumberedAs numbering (seeded named tokens') := by
  have initial := renumberedAs_initial numbering
  have noted : (Findings.initial.noteIgnored tokens (beforeEndMarker tokens).length).RenumberedAs
      numbering (Findings.initial.noteIgnored tokens' (beforeEndMarker tokens').length) := by
    unfold noteIgnored
    dsimp only
    split <;> split
    · exact initial
    · exact initial.note_right rfl
    · exact initial.note_left rfl
    · exact (initial.note_left rfl).note_right rfl
  rw [seeded, seeded, starts]
  exact noted.discover injective 0 ⟨rule.start, 0, emptyStack⟩ .seed

end Findings

end TransitionNetworks
