import Mathlib.Data.List.TakeWhile
import TransitionNetworks.StackGraph.Operation

/-!
# The graph of stacks tells its own history

The plain account of a use of the graph of stacks has no nodes and no index: it is the list of the
operations performed. The frames are those pushed, each once, in the order of first push, and node
`place + 1` is the place of a frame in that list. The callers of a node are those registered on it
since its frame was first pushed, each once, in order, and the same goes for its empty returns.
`Mirrors` says that a graph is in the state that this account has, `Mirrors.perform` and
`Mirrors.answer_eq` that every operation keeps this and is answered out of the account, whatever
node it names, and `Mirrors.performAll` carries both along any list of operations.
-/

namespace TransitionNetworks

section Listing

variable {α : Type} [BEq α] [LawfulBEq α]

/-- Each element once, in order of first appearance, after one more. -/
theorem eraseDups_concat (xs : List α) (x : α) :
    (xs ++ [x]).eraseDups = if x ∈ xs then xs.eraseDups else xs.eraseDups ++ [x] := by
  rw [List.eraseDups_append]
  by_cases listed : x ∈ xs
  · simp [List.removeAll, listed]
  · simp [List.removeAll, listed, List.eraseDups_cons]

end Listing

namespace StackOperation

/-- The frame that an operation pushes. -/
def pushed? : StackOperation → Option Frame
  | push frame => some frame
  | addCaller .. | addEmptyReturn .. => none
  | askFrame _ | askCallers _ | askEmptyReturns _ | askSize => none

/-- The item that an operation registers as a caller of a node. -/
def callerOf? (node : Nat) : StackOperation → Option Item
  | addCaller named caller => if named = node then some caller else none
  | push _ | addEmptyReturn .. | askFrame _ | askCallers _ | askEmptyReturns _ | askSize => none

/-- The item that an operation remembers as an empty return of a node. -/
def emptyReturnOf? (node : Nat) : StackOperation → Option Item
  | addEmptyReturn named stop => if named = node then some stop else none
  | push _ | addCaller .. | askFrame _ | askCallers _ | askEmptyReturns _ | askSize => none

/-- The node that an operation may change, in a graph. -/
def target? (graph : StackGraph) : StackOperation → Option Nat
  | push frame => some (graph.push frame).1
  | addCaller node _ | addEmptyReturn node _ => some node
  | askFrame _ | askCallers _ | askEmptyReturns _ | askSize => none

/-- Only pushes push a frame. -/
theorem pushed?_eq_some_iff (operation : StackOperation) (frame : Frame) :
    operation.pushed? = some frame ↔ operation = push frame := by
  cases operation <;> simp [pushed?]

/-! ## The plain account -/

/-- The frames pushed by operations, each once, in order of first push. -/
def framesOf (performed : List StackOperation) : List Frame :=
  (performed.filterMap pushed?).eraseDups

/-- How many nodes there are after operations, the empty stack among them. -/
def nodeCount (performed : List StackOperation) : Nat := (framesOf performed).length + 1

/-- The frame of a node after operations. -/
def frameOf? (performed : List StackOperation) : Nat → Option Frame
  | 0 => none
  | place + 1 => (framesOf performed)[place]?

/-- The operations performed since a node exists: all of them for the empty stack, none for a node
that does not exist yet, and for any other those from the first push of its frame on. -/
def since (performed : List StackOperation) : Nat → List StackOperation
  | 0 => performed
  | place + 1 =>
    match (framesOf performed)[place]? with
    | none => []
    | some frame => performed.dropWhile (· ≠ push frame)

/-- The items that a node has been told since it exists, each once, in order of first telling. -/
def itemsOf (told : StackOperation → Option Item) (performed : List StackOperation)
    (node : Nat) : List Item :=
  ((since performed node).filterMap told).eraseDups

/-- The callers of a node after operations. -/
def callersOf (performed : List StackOperation) (node : Nat) : List Item :=
  itemsOf (callerOf? node) performed node

/-- The empty returns of a node after operations. -/
def emptyReturnsOf (performed : List StackOperation) (node : Nat) : List Item :=
  itemsOf (emptyReturnOf? node) performed node

/-- The answer to an operation, told from the operations performed before it. -/
def plainAnswer (performed : List StackOperation) : StackOperation → StackAnswer
  | push frame =>
    .node ((framesOf (performed ++ [push frame])).idxOf frame + 1) (push frame ∉ performed)
  | addCaller node caller =>
    .news (node < nodeCount performed ∧ caller ∉ callersOf performed node)
  | addEmptyReturn node stop =>
    .news (node < nodeCount performed ∧ stop ∉ emptyReturnsOf performed node)
  | askFrame node => .frame (frameOf? performed node)
  | askCallers node => .items (callersOf performed node)
  | askEmptyReturns node => .items (emptyReturnsOf performed node)
  | askSize => .size (nodeCount performed)

/-- The answers to operations, each told from all that were performed before it. -/
def plainAnswers (performed : List StackOperation) : List StackOperation → List StackAnswer
  | [] => []
  | operation :: rest =>
    plainAnswer performed operation :: plainAnswers (performed ++ [operation]) rest

/-! ## The account after one more operation -/

variable {performed : List StackOperation} {operation : StackOperation}

/-- The frames of operations are those pushed. -/
theorem mem_framesOf {frame : Frame} : frame ∈ framesOf performed ↔ push frame ∈ performed := by
  simp [framesOf, List.mem_filterMap, pushed?_eq_some_iff]

/-- A push lists its frame behind the others unless it is listed. -/
theorem framesOf_concat_push (performed : List StackOperation) (frame : Frame) :
    framesOf (performed ++ [push frame]) =
      if frame ∈ framesOf performed then framesOf performed else framesOf performed ++ [frame] := by
  have pushes : (performed ++ [push frame]).filterMap pushed? =
      performed.filterMap pushed? ++ [frame] := by
    rw [List.filterMap_append]
    rfl
  rw [framesOf, pushes, eraseDups_concat]
  simp [framesOf]

/-- Other operations list no frame. -/
theorem framesOf_concat_of_pushed? (other : operation.pushed? = none) :
    framesOf (performed ++ [operation]) = framesOf performed := by
  simp [framesOf, List.filterMap_append, other]

/-- One operation more adds frames behind the others, if any. -/
theorem framesOf_prefix_concat (performed : List StackOperation) (operation : StackOperation) :
    framesOf performed <+: framesOf (performed ++ [operation]) := by
  cases pushes : operation.pushed? with
  | none => exact (framesOf_concat_of_pushed? pushes).symm ▸ List.prefix_rfl
  | some frame =>
    obtain rfl := (pushed?_eq_some_iff operation frame).1 pushes
    rw [framesOf_concat_push]
    split
    · exact List.prefix_rfl
    · exact List.prefix_append _ _

/-- A node that exists has one more operation behind it. -/
theorem since_concat_of_lt {node : Nat} (known : node < nodeCount performed) :
    since (performed ++ [operation]) node = since performed node ++ [operation] := by
  cases node with
  | zero => rfl
  | succ place =>
    have listed : place < (framesOf performed).length := Nat.lt_of_succ_lt_succ known
    have here : (framesOf performed)[place]? = some (framesOf performed)[place] :=
      List.getElem?_eq_getElem listed
    have later : (framesOf (performed ++ [operation]))[place]? = some (framesOf performed)[place] :=
      List.prefix_iff_getElem?.1 (framesOf_prefix_concat performed operation) place listed
    -- the frame has been pushed, so the operations from its first push on are not none
    have pushed : push (framesOf performed)[place] ∈ performed :=
      mem_framesOf.1 (List.getElem_mem listed)
    have begun : performed.dropWhile (· ≠ push (framesOf performed)[place]) ≠ [] := by
      intro none
      simpa using List.dropWhile_eq_nil_iff.1 none _ pushed
    simp only [since, here, later, List.dropWhile_append, List.isEmpty_iff, begun, if_false]

/-- A node that does not exist has been told nothing. -/
theorem itemsOf_of_le {node : Nat} (told : StackOperation → Option Item)
    (unknown : nodeCount performed ≤ node) : itemsOf told performed node = [] := by
  cases node with
  | zero => cases unknown
  | succ place =>
    have absent : (framesOf performed)[place]? = none :=
      List.getElem?_eq_none_iff.2 (Nat.le_of_succ_le_succ unknown)
    simp [itemsOf, since, absent]

/-- A node that has just come to exist has been told nothing, whatever was told to its id before. -/
theorem itemsOf_concat_of_le {node : Nat} {told : StackOperation → Option Item}
    (silent : ∀ frame, told (push frame) = none) (unknown : nodeCount performed ≤ node) :
    itemsOf told (performed ++ [operation]) node = [] := by
  by_cases still : nodeCount (performed ++ [operation]) ≤ node
  · exact itemsOf_of_le told still
  · cases pushes : operation.pushed? with
    | none =>
      rw [nodeCount, framesOf_concat_of_pushed? pushes] at still
      exact absurd unknown still
    | some frame =>
      obtain rfl := (pushed?_eq_some_iff operation frame).1 pushes
      rw [nodeCount, framesOf_concat_push] at still
      split at still
      · exact absurd unknown still
      · rename_i fresh
        -- the node is the last one, and its frame was pushed by this operation first
        have last : node = (framesOf performed).length + 1 := by
          rw [nodeCount] at unknown
          rw [List.length_append, List.length_singleton] at still
          omega
        have here : (framesOf (performed ++ [push frame]))[(framesOf performed).length]? =
            some frame := by
          simp [framesOf_concat_push, fresh]
        have begun : (performed ++ [push frame]).dropWhile (· ≠ push frame) = [push frame] := by
          rw [List.dropWhile_append_of_pos]
          · simp
          · intro earlier performedEarlier
            have : earlier ≠ push frame := by
              rintro rfl
              exact fresh (mem_framesOf.2 performedEarlier)
            simpa using this
        simp only [last, itemsOf, since, here, begun, List.filterMap_cons, silent,
          List.filterMap_nil, List.eraseDups_nil]

/-- What a node that exists is told is listed behind the others unless it is listed. -/
theorem itemsOf_concat_of_lt {node : Nat} (told : StackOperation → Option Item)
    (known : node < nodeCount performed) :
    itemsOf told (performed ++ [operation]) node =
      match told operation with
      | none => itemsOf told performed node
      | some item =>
        if item ∈ itemsOf told performed node then itemsOf told performed node
        else itemsOf told performed node ++ [item] := by
  have grown : since (performed ++ [operation]) node = since performed node ++ [operation] :=
    since_concat_of_lt known
  cases tells : told operation with
  | none => simp [itemsOf, grown, List.filterMap_append, tells]
  | some item =>
    simp only [itemsOf, grown, List.filterMap_append, List.filterMap_cons, tells,
      List.filterMap_nil, eraseDups_concat, List.mem_eraseDups]

/-- An operation that tells a node nothing leaves its items alone. -/
theorem itemsOf_concat_of_eq_none {told : StackOperation → Option Item}
    (silent : ∀ frame, told (push frame) = none) (tells : told operation = none) (node : Nat) :
    itemsOf told (performed ++ [operation]) node = itemsOf told performed node := by
  by_cases known : node < nodeCount performed
  · rw [itemsOf_concat_of_lt told known, tells]
  · rw [itemsOf_concat_of_le silent (by omega), itemsOf_of_le told (by omega)]

end StackOperation

open StackOperation

namespace StackGraph

/-! ## A graph and its account -/

/-- A graph is in the state that the account of operations has. -/
structure Mirrors (performed : List StackOperation) (graph : StackGraph) : Prop where
  /-- The frames are those pushed. -/
  frames : graph.frames.toList = framesOf performed
  /-- The callers are those registered. -/
  callers : ∀ node, (graph.callers node).toList = callersOf performed node
  /-- The empty returns are those remembered. -/
  emptyReturns : ∀ node, (graph.emptyReturns node).toList = emptyReturnsOf performed node

namespace Mirrors

variable {performed : List StackOperation} {graph : StackGraph}

/-- The first graph mirrors that nothing has been done. -/
theorem initial : Mirrors [] StackGraph.initial where
  frames := rfl
  callers node := by
    cases node <;> simp [callersOf, itemsOf, since, framesOf, EmptyCollection.emptyCollection]
  emptyReturns node := by
    cases node <;> simp [emptyReturnsOf, itemsOf, since, framesOf, EmptyCollection.emptyCollection]

/-- A graph has as many nodes as are accounted for. -/
theorem size_eq (mirrors : graph.Mirrors performed) :
    graph.size = nodeCount performed := by
  rw [nodeCount, ← mirrors.frames]
  exact graph.size_nodes

/-- A node has the frame that is accounted for. -/
theorem frame?_eq (mirrors : graph.Mirrors performed) (node : Nat) :
    graph.frame? node = frameOf? performed node := by
  cases node with
  | zero => rfl
  | succ place =>
    rw [frame?, frameOf?, ← mirrors.frames, Enumeration.getElem?_toList]

/-- The frames that have a node are those pushed. -/
theorem node?_eq_none_iff (mirrors : graph.Mirrors performed) (frame : Frame) :
    graph.node? frame = none ↔ StackOperation.push frame ∉ performed := by
  rw [node?, Option.map_eq_none_iff, ← Option.not_isSome_iff_eq_none,
    ← Enumeration.contains_eq_isSome_indexOf?, graph.frames.contains_iff_mem, mirrors.frames,
    mem_framesOf]

/-- Giving out a node lists its frame as the account does. -/
theorem toList_frames_push (mirrors : graph.Mirrors performed) (frame : Frame) :
    (graph.push frame).2.frames.toList = framesOf (performed ++ [.push frame]) := by
  rw [framesOf_concat_push]
  cases known : graph.node? frame with
  | some node =>
    have listed : frame ∈ framesOf performed := by
      by_contra fresh
      rw [mem_framesOf, ← mirrors.node?_eq_none_iff, known] at fresh
      cases fresh
    rw [push_of_node? known, if_pos listed, mirrors.frames]
  | none =>
    have fresh : frame ∉ framesOf performed := by
      rw [mem_framesOf, ← mirrors.node?_eq_none_iff, known]
    have unlisted : ¬ graph.frames.contains frame = true := by
      rwa [graph.frames.contains_iff_mem, mirrors.frames]
    rw [(push_of_node?_eq_none known).2.1, Enumeration.toList_insert, if_neg unlisted,
      if_neg fresh, mirrors.frames]

/-- The node given out is told by the place of its frame. -/
theorem push_eq_idxOf (mirrors : graph.Mirrors performed) (frame : Frame) :
    (graph.push frame).1 = (framesOf (performed ++ [.push frame])).idxOf frame + 1 := by
  have here := graph.frame?_push_self frame
  have listed := mirrors.toList_frames_push frame
  have nodup := (graph.push frame).2.frames.toList_nodup
  generalize (graph.push frame).1 = node at here ⊢
  generalize (graph.push frame).2 = pushed at here listed nodup
  rw [← listed]
  cases node with
  | zero => cases here
  | succ place =>
    rw [frame?, ← Enumeration.getElem?_toList] at here
    obtain ⟨bound, rfl⟩ := List.getElem?_eq_some_iff.1 here
    rw [nodup.idxOf_getElem]

/-- What is told to a node is listed as the account does, and lost as in the account if the node
does not exist. -/
theorem toList_eq_itemsOf (mirrors : graph.Mirrors performed)
    {told : StackOperation → Option Item} {operation : StackOperation} {item : Item} {node : Nat}
    {items : Enumeration Item} (silent : ∀ frame, told (.push frame) = none)
    (listed : items.toList = itemsOf told performed node) (tells : told operation = some item) :
    (if node < graph.size then items.insert item else items).toList =
      itemsOf told (performed ++ [operation]) node := by
  rw [mirrors.size_eq]
  by_cases known : node < nodeCount performed
  · rw [if_pos known, itemsOf_concat_of_lt told known, tells, Enumeration.toList_insert, ← listed]
    simp only [items.contains_iff_mem]
  · have unknown : nodeCount performed ≤ node := Nat.le_of_not_lt known
    rw [if_neg known, listed, itemsOf_of_le told unknown, itemsOf_concat_of_le silent unknown]

/-- Giving out a node is what the account says. -/
theorem push (mirrors : graph.Mirrors performed) (frame : Frame) :
    (graph.push frame).2.Mirrors (performed ++ [.push frame]) where
  frames := mirrors.toList_frames_push frame
  callers node := by
    rw [callers_push, mirrors.callers, callersOf, callersOf,
      itemsOf_concat_of_eq_none (fun _ => rfl) rfl]
  emptyReturns node := by
    rw [emptyReturns_push, mirrors.emptyReturns, emptyReturnsOf, emptyReturnsOf,
      itemsOf_concat_of_eq_none (fun _ => rfl) rfl]

/-- Registering a caller is what the account says, also of a node that does not exist. -/
theorem addCaller (mirrors : graph.Mirrors performed) (node : Nat) (caller : Item) :
    (graph.addCaller node caller).Mirrors (performed ++ [.addCaller node caller]) where
  frames := by
    rw [framesOf_concat_of_pushed? rfl]
    exact mirrors.frames
  callers other := by
    by_cases same : other = node
    · subst same
      rw [callers_addCaller]
      simp only [true_and]
      exact mirrors.toList_eq_itemsOf (fun _ => rfl) (mirrors.callers other) (by simp [callerOf?])
    · rw [callers_addCaller, if_neg fun concerned => same concerned.1, mirrors.callers, callersOf,
        callersOf, itemsOf_concat_of_eq_none (fun _ => rfl)]
      simp [callerOf?, Ne.symm same]
  emptyReturns other := by
    rw [emptyReturns_addCaller, mirrors.emptyReturns, emptyReturnsOf, emptyReturnsOf,
      itemsOf_concat_of_eq_none (fun _ => rfl) rfl]

/-- Remembering an empty return is what the account says, also of a node that does not exist. -/
theorem addEmptyReturn (mirrors : graph.Mirrors performed) (node : Nat) (stop : Item) :
    (graph.addEmptyReturn node stop).Mirrors (performed ++ [.addEmptyReturn node stop]) where
  frames := by
    rw [framesOf_concat_of_pushed? rfl]
    exact mirrors.frames
  callers other := by
    rw [callers_addEmptyReturn, mirrors.callers, callersOf, callersOf,
      itemsOf_concat_of_eq_none (fun _ => rfl) rfl]
  emptyReturns other := by
    by_cases same : other = node
    · subst same
      rw [emptyReturns_addEmptyReturn]
      simp only [true_and]
      exact mirrors.toList_eq_itemsOf (fun _ => rfl) (mirrors.emptyReturns other)
        (by simp [emptyReturnOf?])
    · rw [emptyReturns_addEmptyReturn, if_neg fun concerned => same concerned.1,
        mirrors.emptyReturns, emptyReturnsOf, emptyReturnsOf,
        itemsOf_concat_of_eq_none (fun _ => rfl)]
      simp [emptyReturnOf?, Ne.symm same]

/-- A question changes the account as little as the graph. -/
theorem ask (mirrors : graph.Mirrors performed) {question : StackOperation}
    (silent : question.pushed? = none ∧ (∀ node, question.callerOf? node = none) ∧
      ∀ node, question.emptyReturnOf? node = none) :
    graph.Mirrors (performed ++ [question]) where
  frames := by rw [framesOf_concat_of_pushed? silent.1, mirrors.frames]
  callers node := by
    rw [mirrors.callers, callersOf, callersOf,
      itemsOf_concat_of_eq_none (fun _ => rfl) (silent.2.1 node)]
  emptyReturns node := by
    rw [mirrors.emptyReturns, emptyReturnsOf, emptyReturnsOf,
      itemsOf_concat_of_eq_none (fun _ => rfl) (silent.2.2 node)]

/-- Every operation leads to the graph that the account has then. -/
theorem perform (mirrors : graph.Mirrors performed) (operation : StackOperation) :
    (graph.perform operation).2.Mirrors (performed ++ [operation]) := by
  cases operation with
  | push frame => exact mirrors.push frame
  | addCaller node caller => exact mirrors.addCaller node caller
  | addEmptyReturn node stop => exact mirrors.addEmptyReturn node stop
  | askFrame node => exact mirrors.ask ⟨rfl, fun _ => rfl, fun _ => rfl⟩
  | askCallers node => exact mirrors.ask ⟨rfl, fun _ => rfl, fun _ => rfl⟩
  | askEmptyReturns node => exact mirrors.ask ⟨rfl, fun _ => rfl, fun _ => rfl⟩
  | askSize => exact mirrors.ask ⟨rfl, fun _ => rfl, fun _ => rfl⟩

/-- Every operation is answered out of the account. -/
theorem answer_eq (mirrors : graph.Mirrors performed) (operation : StackOperation) :
    (graph.perform operation).1 = plainAnswer performed operation := by
  cases operation with
  | push frame =>
    have fresh : (graph.node? frame).isNone = decide (StackOperation.push frame ∉ performed) := by
      rw [Bool.eq_iff_iff, Option.isNone_iff_eq_none, decide_eq_true_iff,
        mirrors.node?_eq_none_iff]
    simp only [StackGraph.perform, plainAnswer, mirrors.push_eq_idxOf, fresh]
  | addCaller node caller =>
    have news : graph.lacksCaller node caller =
        decide (node < nodeCount performed ∧ caller ∉ callersOf performed node) := by
      rw [Bool.eq_iff_iff, decide_eq_true_iff, ← mirrors.callers, Enumeration.mem_toList,
        Enumeration.mem_iff_contains, ← mirrors.size_eq]
      simp [lacksCaller, size]
    simp only [StackGraph.perform, plainAnswer, news]
  | addEmptyReturn node stop =>
    have news : graph.lacksEmptyReturn node stop =
        decide (node < nodeCount performed ∧ stop ∉ emptyReturnsOf performed node) := by
      rw [Bool.eq_iff_iff, decide_eq_true_iff, ← mirrors.emptyReturns, Enumeration.mem_toList,
        Enumeration.mem_iff_contains, ← mirrors.size_eq]
      simp [lacksEmptyReturn, size]
    simp only [StackGraph.perform, plainAnswer, news]
  | askFrame node => simp only [StackGraph.perform, plainAnswer, mirrors.frame?_eq]
  | askCallers node => simp only [StackGraph.perform, plainAnswer, mirrors.callers]
  | askEmptyReturns node => simp only [StackGraph.perform, plainAnswer, mirrors.emptyReturns]
  | askSize => simp only [StackGraph.perform, plainAnswer, mirrors.size_eq]

/-- Any operations are answered out of the account and lead to the graph that it has then. -/
theorem performAll (operations : List StackOperation) (mirrors : graph.Mirrors performed) :
    (graph.performAll operations).1 = plainAnswers performed operations ∧
      (graph.performAll operations).2.Mirrors (performed ++ operations) := by
  induction operations generalizing graph performed with
  | nil => simpa [StackGraph.performAll, plainAnswers] using mirrors
  | cons operation rest ih =>
    obtain ⟨answers, later⟩ := ih (mirrors.perform operation)
    refine ⟨?_, ?_⟩
    · simp only [StackGraph.performAll, plainAnswers, mirrors.answer_eq operation, answers]
    · simpa [StackGraph.performAll] using later

end Mirrors

/-! ## What an operation leaves alone -/

/-- A node that does not exist can be told nothing. -/
theorem nodes_modify_of_size_le {graph : StackGraph} {node : Nat} (unknown : graph.size ≤ node)
    (change : StackNode → StackNode) : graph.nodes.modify node change = graph.nodes := by
  refine Array.ext_getElem? fun place => ?_
  rw [Array.getElem?_modify]
  split
  · rename_i same
    have absent : graph.nodes[place]? = none := by
      rw [Array.getElem?_eq_none_iff, ← same]
      exact unknown
    rw [absent, Option.map_none]
  · rfl

/-- A node that is not there gets no caller. -/
theorem addCaller_of_size_le {graph : StackGraph} {node : Nat} (unknown : graph.size ≤ node)
    (caller : Item) : graph.addCaller node caller = graph := by
  have same := nodes_modify_of_size_le unknown (StackNode.addCaller caller)
  obtain ⟨frames, nodes, size⟩ := graph
  simp only [addCaller, same]

/-- A node that is not there gets no empty return. -/
theorem addEmptyReturn_of_size_le {graph : StackGraph} {node : Nat} (unknown : graph.size ≤ node)
    (stop : Item) : graph.addEmptyReturn node stop = graph := by
  have same := nodes_modify_of_size_le unknown (StackNode.addEmptyReturn stop)
  obtain ⟨frames, nodes, size⟩ := graph
  simp only [addEmptyReturn, same]

/-- An operation changes nothing of a node other than its own. -/
theorem perform_of_target?_ne {graph : StackGraph} {operation : StackOperation} {node : Nat}
    (other : operation.target? graph ≠ some node) :
    (graph.perform operation).2.frame? node = graph.frame? node ∧
      (graph.perform operation).2.callers node = graph.callers node ∧
      (graph.perform operation).2.emptyReturns node = graph.emptyReturns node := by
  cases operation with
  | push frame =>
    have elsewhere : node ≠ (graph.push frame).1 := fun same => other (congrArg some same.symm)
    refine ⟨Option.ext fun held => ?_, graph.callers_push frame node,
      graph.emptyReturns_push frame node⟩
    simpa [perform, elsewhere] using graph.frame?_push frame held node
  | addCaller named caller =>
    have elsewhere : node ≠ named := fun same => other (congrArg some same.symm)
    refine ⟨rfl, ?_, graph.emptyReturns_addCaller named node caller⟩
    simp [perform, callers_addCaller, elsewhere]
  | addEmptyReturn named stop =>
    have elsewhere : node ≠ named := fun same => other (congrArg some same.symm)
    refine ⟨rfl, graph.callers_addEmptyReturn named node stop, ?_⟩
    simp [perform, emptyReturns_addEmptyReturn, elsewhere]
  | askFrame _ | askCallers _ | askEmptyReturns _ | askSize => exact ⟨rfl, rfl, rfl⟩

/-- A node that does not exist has no callers and no empty returns. -/
theorem items_of_size_le {graph : StackGraph} {node : Nat} (unknown : graph.size ≤ node) :
    graph.callers node = ∅ ∧ graph.emptyReturns node = ∅ := by
  have absent : graph.nodes[node]? = none := Array.getElem?_eq_none_iff.2 unknown
  simp [callers, emptyReturns, absent, StackNode.fresh]

/-! ## Frames and nodes -/

namespace Mirrors

variable {performed : List StackOperation} {graph : StackGraph}

/-- The frames pushed are those that have a node, and each has one. -/
theorem pushed_iff_existsUnique (mirrors : graph.Mirrors performed) (frame : Frame) :
    .push frame ∈ performed ↔ ∃! node, graph.frame? node = some frame := by
  have pushed_iff : .push frame ∈ performed ↔ ∃ node, graph.frame? node = some frame := by
    rw [← not_iff_not, ← mirrors.node?_eq_none_iff, Option.eq_none_iff_forall_ne_some, not_exists]
    simp only [ne_eq, node?_eq_some_iff]
  rw [pushed_iff]
  exact ⟨fun ⟨node, here⟩ => ⟨node, here, fun other there => frame?_inj there here⟩,
    fun ⟨node, here, _⟩ => ⟨node, here⟩⟩

/-- The nodes other than the empty stack are those that have a frame that was pushed. -/
theorem lt_size_iff_exists_pushed (mirrors : graph.Mirrors performed) (node : Nat) :
    0 < node ∧ node < graph.size ↔
      ∃ frame, .push frame ∈ performed ∧ graph.frame? node = some frame := by
  constructor
  · rintro ⟨positive, known⟩
    obtain ⟨place, rfl⟩ := Nat.exists_eq_succ_of_ne_zero positive.ne'
    rw [mirrors.size_eq] at known
    have listed : place < (framesOf performed).length := Nat.lt_of_succ_lt_succ known
    refine ⟨(framesOf performed)[place], mem_framesOf.1 (List.getElem_mem listed), ?_⟩
    rw [mirrors.frame?_eq]
    exact List.getElem?_eq_getElem listed
  · rintro ⟨frame, -, here⟩
    refine ⟨Nat.pos_of_ne_zero ?_, lt_size_of_frame? here⟩
    rintro rfl
    cases here

/-- A frame that has not been pushed gets the next node, and nothing is listed there. -/
theorem push_of_not_mem (mirrors : graph.Mirrors performed) {frame : Frame}
    (fresh : .push frame ∉ performed) :
    (graph.push frame).1 = graph.size ∧ (graph.push frame).2.callers graph.size = ∅ ∧
      (graph.push frame).2.emptyReturns graph.size = ∅ := by
  have given := (push_of_node?_eq_none ((mirrors.node?_eq_none_iff frame).2 fresh)).1
  rw [callers_push, emptyReturns_push]
  exact ⟨given, items_of_size_le (le_refl _)⟩

end Mirrors

/-! ## The main result -/

/-- Whatever is asked of the graph of stacks and told to it, and whatever ids are named, every
answer is the one of the plain account, and the nodes afterwards are those of the account: the
distinct frames pushed, numbered from `1` in the order of first push and each with one node, with
the items they were told since. One more operation changes nothing of a node other than its own,
and nothing at all if its node does not exist; a frame that has not been pushed gets a node without
callers and empty returns, whatever its id was told before. -/
theorem performAll_refines (operations : List StackOperation) :
    let graph := (initial.performAll operations).2
    (initial.performAll operations).1 = plainAnswers [] operations ∧
      (graph.size = nodeCount operations ∧
        ∀ node, graph.frame? node = frameOf? operations node ∧
          (graph.callers node).toList = callersOf operations node ∧
          (graph.emptyReturns node).toList = emptyReturnsOf operations node) ∧
      ((∀ frame, .push frame ∈ operations ↔ ∃! node, graph.frame? node = some frame) ∧
        ∀ node, 0 < node ∧ node < graph.size ↔
          ∃ frame, .push frame ∈ operations ∧ graph.frame? node = some frame) ∧
      (∀ operation node, operation.target? graph ≠ some node →
        (graph.perform operation).2.frame? node = graph.frame? node ∧
          (graph.perform operation).2.callers node = graph.callers node ∧
          (graph.perform operation).2.emptyReturns node = graph.emptyReturns node) ∧
      (∀ node item, graph.size ≤ node →
        graph.addCaller node item = graph ∧ graph.addEmptyReturn node item = graph) ∧
      ∀ frame, .push frame ∉ operations →
        (graph.push frame).1 = graph.size ∧
          (graph.push frame).2.callers graph.size = ∅ ∧
          (graph.push frame).2.emptyReturns graph.size = ∅ := by
  intro graph
  obtain ⟨answers, mirrors⟩ := Mirrors.initial.performAll operations
  change graph.Mirrors operations at mirrors
  refine ⟨answers, ⟨mirrors.size_eq, fun node => ?_⟩,
    ⟨mirrors.pushed_iff_existsUnique, mirrors.lt_size_iff_exists_pushed⟩,
    fun operation node other => ?_, fun node item unknown => ?_, fun frame fresh => ?_⟩
  · exact ⟨mirrors.frame?_eq node, mirrors.callers node, mirrors.emptyReturns node⟩
  · exact perform_of_target?_ne other
  · exact ⟨addCaller_of_size_le unknown item, addEmptyReturn_of_size_le unknown item⟩
  · exact mirrors.push_of_not_mem fresh

end StackGraph

end TransitionNetworks
