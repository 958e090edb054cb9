import Mathlib.Data.List.Perm.Subperm
import TransitionNetworks.Proofs.Saturation

/-! # Work at a position leaves the past alone

A closing step goes on from items of any age, through nodes of any age; but what it changes is at
its position (`Findings.AltersOnly`): it finds items there, enters calls that begin there, and
registers callers and remembers stops on the nodes of such calls. A scanning step finds items at the
next position and leaves the stacks alone. Both kinds of changes compose along the courses that a
run takes (`Course.reached`), so that they are known of every stage, and no stage takes anything
back (`Findings.Keeps`).

This is what late callers depend on. When a rule stops behind the position where its call began, the
callers of the call are those that it will ever have (`Swept.callers_eq_of_began`), and the stops
that are remembered of a call are those at this very position
(`Findings.Finished.mem_emptyReturns_iff`). -/

namespace TransitionNetworks

/-! ## Changes of the chart and of the stacks -/

/-- Inserting an item at a position that the chart reaches, or at the next one, changes no other
set. -/
theorem Chart.set?_insert_of_ne {chart : Chart} {position other : Nat}
    (reached : position ≤ chart.size) (different : other ≠ position) (item : Item) :
    (chart.insert position item).set? other = chart.set? other := by
  rw [set?_eq_ite, set?_eq_ite, itemsAt_insert, if_neg different, size_insert]
  have same : other < max chart.size (position + 1) ↔ other < chart.size := by omega
  simp only [same]

namespace StackGraph

variable {graph : StackGraph} {frame : Frame} {caller : Item} {node : Nat}

/-- Registering a caller changes nothing of a node that does not get the frame. -/
theorem register_of_frame?_ne
    (other : (graph.register frame caller).frame? node ≠ some frame) :
    (graph.register frame caller).frame? node = graph.frame? node ∧
      (graph.register frame caller).callers node = graph.callers node ∧
      (graph.register frame caller).emptyReturns node = graph.emptyReturns node := by
  have elsewhere : node ≠ (graph.push frame).1 := by
    rintro rfl
    exact other (graph.frame?_push_self frame)
  refine ⟨Option.ext fun held => ?_, ?_, graph.emptyReturns_register frame caller node⟩
  · simpa [elsewhere] using graph.frame?_register frame held caller node
  · rw [register, callers_addCaller, if_neg fun here => elsewhere here.1, callers_push]

end StackGraph

/-- An enumeration that another one continues is the other one if it has all of its elements. -/
theorem Enumeration.eq_of_prefix {α : Type} [Ord α] [Std.TransOrd α] [Std.LawfulEqOrd α]
    {s t : Enumeration α} (begins : s.toList <+: t.toList) (all : ∀ x ∈ t, x ∈ s) : s = t :=
  ext_toList (begins.eq_of_length_le (t.toList_nodup.subperm all).length_le)

namespace Findings

/-- Finding an item at a position that the chart reaches, or at the next one, changes no other set.
-/
theorem set?_discover_of_ne {findings : Findings} {position other : Nat}
    (reached : position ≤ findings.chart.size) (different : other ≠ position) (item : Item)
    (why : Provenance) :
    (findings.discover position item why).chart.set? other = findings.chart.set? other := by
  rw [chart_discover, Chart.set?_insert_of_ne reached different item]

/-! ## Findings that differ at a position only -/

/-- **Changes at a position.** Later findings have the same set at every other position, and the
same of every node but those of calls that begin at the position. -/
structure AltersOnly (position : Nat) (findings later : Findings) : Prop where
  /-- The sets at other positions are the same. -/
  sets : ∀ other, other ≠ position → later.chart.set? other = findings.chart.set? other
  /-- A node without a frame of the position is there or not as before, and has the same callers and
  empty returns. -/
  nodes : ∀ node,
    (∀ frame, later.stackGraph.frame? node = some frame → frame.position ≠ position) →
      later.stackGraph.frame? node = findings.stackGraph.frame? node ∧
        later.stackGraph.callers node = findings.stackGraph.callers node ∧
        later.stackGraph.emptyReturns node = findings.stackGraph.emptyReturns node

variable {findings later last : Findings} {position : Nat}

/-- Findings that stay the same change nowhere. -/
theorem AltersOnly.refl (position : Nat) (findings : Findings) :
    findings.AltersOnly position findings :=
  ⟨fun _ _ => rfl, fun _ _ => ⟨rfl, rfl, rfl⟩⟩

/-- Changes at a position, one behind the other, are changes at the position. -/
theorem AltersOnly.trans (first : findings.AltersOnly position later)
    (second : later.AltersOnly position last) : findings.AltersOnly position last where
  sets other different := (second.sets other different).trans (first.sets other different)
  nodes node elsewhere := by
    obtain ⟨frame, callers, emptyReturns⟩ := second.nodes node elsewhere
    rw [frame] at elsewhere
    obtain ⟨frame', callers', emptyReturns'⟩ := first.nodes node elsewhere
    exact ⟨frame.trans frame', callers.trans callers', emptyReturns.trans emptyReturns'⟩

/-- Findings with the same chart and stacks except where a node gets a frame of the position. -/
theorem AltersOnly.of_register {frame : Frame} (findings : Findings) (caller : Item)
    (began : frame.position = position) :
    findings.AltersOnly position (findings.register frame caller) where
  sets _ _ := rfl
  nodes _ elsewhere :=
    StackGraph.register_of_frame?_ne fun here => elsewhere frame here began

/-- Remembering a stop changes the node of a call that began at the position, if anything. -/
theorem AltersOnly.of_remember {frame : Frame} {stop : Item}
    (here : findings.stackGraph.frame? stop.stack = some frame) (position : Nat) :
    findings.AltersOnly position (findings.remember position frame stop) := by
  by_cases began : frame.position = position
  · refine ⟨fun _ _ => by rw [remember, if_pos began], fun node elsewhere => ?_⟩
    rw [frame?_remember] at elsewhere ⊢
    have other : node ≠ stop.stack := by
      rintro rfl
      exact elsewhere frame here began
    refine ⟨rfl, callers_remember findings position frame stop node, ?_⟩
    rw [remember, if_pos began, StackGraph.emptyReturns_addEmptyReturn,
      if_neg fun same => other same.1]
  · rw [remember, if_neg began]
    exact .refl position findings

end Findings

section

variable {network : Network} {findings later : Findings} {position : Nat} {token : Token}

/-- A closing step goes on from an item at its position, which the chart therefore reaches. -/
theorem ClosingStep.lt_size (step : ClosingStep network position findings later) :
    position < findings.chart.size := by
  cases step with
  | predict found => exact Findings.Has.lt_size found
  | epsilon found => exact Findings.Has.lt_size found
  | complete found => exact Findings.Has.lt_size found

/-- A closing step changes the set at its position only. -/
theorem ClosingStep.set?_eq (step : ClosingStep network position findings later) {other : Nat}
    (different : other ≠ position) : later.chart.set? other = findings.chart.set? other := by
  refine (step.preserves (fun now => position < now.chart.size ∧
    now.chart.set? other = findings.chart.set? other) ?_ (fun _ _ => id) (fun _ _ _ _ => id)
    ⟨step.lt_size, rfl⟩).2
  intro now item why ⟨reached, same⟩
  refine ⟨?_, (Findings.set?_discover_of_ne (Nat.le_of_lt reached) different item why).trans same⟩
  exact Findings.Has.lt_size ((Findings.has_discover _ _ _ _ _ _).2 (Or.inr ⟨rfl, rfl⟩))

/-- **A closing step changes things at its position only,** although it goes on from callers on
nodes of any age. -/
theorem ClosingStep.altersOnly (step : ClosingStep network position findings later) :
    findings.AltersOnly position later := by
  refine ⟨fun other => step.set?_eq, ?_⟩
  cases step with
  | @predict item start follow rule =>
    rw [Findings.predict_eq start ⟨follow, rule, position⟩, Findings.stackGraph_returnAll,
      Findings.enter, Findings.stackGraph_discover]
    exact (Findings.AltersOnly.of_register findings item rfl).nodes
  | epsilon =>
    rw [Findings.stackGraph_discover]
    exact (Findings.AltersOnly.refl position findings).nodes
  | @complete stop rule =>
    rcases Findings.complete_cases position stop rule findings with
      same | ⟨frame, here, -, returns⟩ | ⟨called, noted⟩
    · rw [same]
      exact (Findings.AltersOnly.refl position findings).nodes
    · rw [returns, Findings.stackGraph_returnAll]
      exact (Findings.AltersOnly.of_remember here position).nodes
    · rw [noted]
      exact (Findings.AltersOnly.refl position findings).nodes

/-- Closing a position changes findings at the position only. -/
theorem Closing.altersOnly (steps : Closing network position findings later) :
    findings.AltersOnly position later := by
  induction steps with
  | refl => exact .refl position findings
  | tail _ step ih => exact ih.trans step.altersOnly

/-- **Scanning a token changes the set at the next position only.** -/
theorem Scanning.set?_eq (steps : Scanning network position token findings later) {other : Nat}
    (different : other ≠ position + 1) :
    later.chart.set? other = findings.chart.set? other := by
  induction steps with
  | refl => rfl
  | tail _ step ih =>
    cases step with
    | scan found =>
      exact (Findings.set?_discover_of_ne (Findings.Has.lt_size found) different _ _).trans ih

end

namespace Findings

/-! ## Findings that keep what there was -/

/-- **Nothing is taken back.** What was listed is the beginning of what is listed later, and what
was recorded stays recorded. -/
structure Keeps (findings later : Findings) : Prop where
  /-- Items are appended to those of their position. -/
  items : ∀ position, (findings.chart.itemsAt position).toList <+:
    (later.chart.itemsAt position).toList
  /-- Frames are appended. -/
  frames : findings.stackGraph.frames.toList <+: later.stackGraph.frames.toList
  /-- Callers are appended to those of their node. -/
  callers : ∀ node, (findings.stackGraph.callers node).toList <+:
    (later.stackGraph.callers node).toList
  /-- Empty returns are appended to those of their node. -/
  emptyReturns : ∀ node, (findings.stackGraph.emptyReturns node).toList <+:
    (later.stackGraph.emptyReturns node).toList
  /-- The provenance of an item never changes. -/
  provenance : ∀ place why, findings.provenance.find? place = some why →
    later.provenance.find? place = some why

variable {findings later : Findings}

/-- Findings that grow keep what there was. -/
theorem Extends.keeps (grown : findings.Extends later) (coherent : findings.Coherent)
    (coherent' : later.Coherent) : findings.Keeps later where
  items := grown.items
  frames := List.prefix_iff_getElem?.2 fun place bound => by
    have here : findings.stackGraph.frame? (place + 1) =
        some findings.stackGraph.frames.toList[place] := by
      rw [StackGraph.frame?, ← Enumeration.getElem?_toList]
      exact List.getElem?_eq_getElem bound
    rw [Enumeration.getElem?_toList]
    exact grown.frames _ _ here
  callers := grown.callers
  emptyReturns := grown.emptyReturns
  provenance place why recorded := by
    rw [coherent.find?_eq_some_iff] at recorded
    rw [coherent'.find?_eq_some_iff]
    exact grown.finds.subset recorded

end Findings

/-- Findings grow from each stage of a passage to every later one. -/
theorem Passage.pairwise_extends {network : Network} {input : List Token}
    {findings later : Findings} {stages : List Findings}
    (passage : Passage network input findings stages later) :
    (findings :: stages).Pairwise Findings.Extends := by
  induction passage with
  | refl findings => exact List.pairwise_singleton ..
  | cons step _ ih =>
    refine List.pairwise_cons.2 ⟨List.forall_mem_cons.2 ⟨step.grows, fun stage member => ?_⟩, ih⟩
    exact step.grows.trans ((List.pairwise_cons.1 ih).1 stage member)

namespace Findings

variable {network : Network} {start : Nat} {input : List Token}
  {findings last stage : Findings} {position : Nat}

/-! ## Nodes of calls that began earlier -/

/-- **The callers of an earlier call are final.** While a position is closed, a node whose call
began in front of it has the callers that it will have in the end. -/
theorem Swept.callers_eq_of_began (swept : findings.Swept network start input position)
    (linked : last.Linked network start input)
    (behind : Behind position (findings.close network position) last)
    (steps : Closing network position findings stage) {node : Nat} {frame : Frame}
    (here : stage.stackGraph.frame? node = some frame) (began : frame.position < position) :
    stage.stackGraph.callers node = last.stackGraph.callers node := by
  have elsewhere : ∀ other, stage.stackGraph.frame? node = some other →
      other.position ≠ position := by
    intro other there
    obtain rfl : frame = other := Option.some.inj (here.symm.trans there)
    exact Nat.ne_of_lt began
  -- the call is older than the closing, and no step of the closing concerns it
  obtain ⟨old, callers, -⟩ := steps.altersOnly.nodes node elsewhere
  have closing := swept.close.2.1
  have closed : (findings.close network position).stackGraph.frame? node = some frame :=
    (Closing.grows closing).frames _ _ (old.symm.trans here)
  rw [here, ← closed] at elsewhere
  have callers' := (closing.altersOnly.nodes node elsewhere).2.1
  rw [callers, ← callers']
  refine Enumeration.eq_of_prefix (behind.grown.callers node) fun caller registered => ?_
  have same := swept.callers_close linked behind closed
  exact same.subset registered

/-- **What is remembered of a call** when a run is finished are the items on its node in which its
rule stops, found where the call began. -/
theorem Finished.mem_emptyReturns_iff (finished : findings.Finished network start input)
    {node : Nat} {stop : Item} :
    stop ∈ findings.stackGraph.emptyReturns node ↔
      ∃ frame, findings.stackGraph.frame? node = some frame ∧ stop.stack = node ∧
        network.StopsIn frame.rule stop.state ∧
        findings.chart.contains frame.position stop = true := by
  constructor
  · intro remembered
    obtain ⟨frame, here, found, onNode, stops⟩ := finished.linked.emptyReturns node stop remembered
    exact ⟨frame, here, onNode, stops, (has_iff_contains _ _ _).1 found⟩
  · rintro ⟨frame, here, rfl, stops, found⟩
    have found := (has_iff_contains _ _ _).2 found
    exact (finished.settled _ stop found).remembered frame here stops rfl

end Findings

/-! ## The stages of a run, closing by closing -/

namespace Network

/-- The stages from closing a position on: if there is a token they are those of the visit. -/
def stagesFrom (network : Network) (input : List Token) (closing : Nat × Findings) :
    List Findings :=
  match input[closing.1]? with
  | none => Findings.closeStages network closing.1 closing.2
  | some token => Findings.visitStages network closing.1 token closing.2

variable {network : Network} {startRule : Nat} {rule : Rule} {tokens input : List Token}
  {position : Nat}

/-- The stages of a sweep are those from the positions that it closes. -/
theorem sweepStages_eq_flatMap {rest : List Token} (unread : input.drop position = rest)
    (findings : Findings) :
    Findings.sweepStages network position rest findings =
      (Findings.sweepClosings network position rest findings).flatMap
        (network.stagesFrom input) := by
  induction rest generalizing position findings with
  | nil => rfl
  | cons token rest ih =>
    obtain ⟨read, left⟩ := getElem?_and_drop_of_drop_eq_cons unread
    rw [Findings.sweepStages, Findings.sweepClosings, List.flatMap_cons]
    simp only [stagesFrom, read]
    split
    · rw [List.flatMap_nil]
    · rw [ih left]

/-- Behind the end marker there is no token left to visit. -/
theorem settleStages_eq_flatMap {last : Nat} (length : input.length = last + 1)
    (findings : Findings) :
    Findings.settleStages network last findings =
      (Findings.settleClosings last findings).flatMap (network.stagesFrom input) := by
  have none : input[last + 1]? = none := List.getElem?_eq_none_iff.2 (Nat.le_of_eq length)
  unfold Findings.settleStages Findings.settleClosings
  split
  · rfl
  · rw [List.flatMap_singleton]
    simp only [stagesFrom, none]

/-- **The stages of a run** are those from the positions that it closes, and the verdict. -/
theorem stages_eq_flatMap (network : Network) (startRule : Nat) (rule : Rule)
    (tokens : List Token) :
    network.stages startRule rule tokens =
      (network.closings rule tokens).flatMap (network.stagesFrom (inputOf tokens)) ++
        [(network.recognitionFrom startRule rule tokens).findings] := by
  rw [stages, closings, List.flatMap_append, List.append_assoc,
    sweepStages_eq_flatMap List.drop_zero, settleStages_eq_flatMap (length_inputOf tokens)]

/-- A stage of a run keeps what there was at the earlier ones. -/
theorem pairwise_keeps (known : network.rule? startRule = some rule) (tokens : List Token) :
    (Findings.seeded rule tokens :: network.stages startRule rule tokens).Pairwise
      Findings.Keeps := by
  have linked := network.linked_stages known tokens
  refine (network.passage_stages startRule rule tokens).pairwise_extends.imp_of_mem ?_
  intro stage later member member' grown
  exact grown.keeps (linked stage member).coherent (linked later member').coherent

/-- While the token at a position that is closed is scanned, and when the visit is noted, the stacks
stay as they are, and the set at the next position alone changes. -/
theorem scanned_of_mem {before stage : Findings} {token : Token}
    (member : stage ∈
      Findings.scanAllStages network position token (before.close network position) ++
        [before.visit network position token]) :
    stage.stackGraph = (before.close network position).stackGraph ∧
      ∀ other, other ≠ position + 1 →
        stage.chart.set? other = (before.close network position).chart.set? other := by
  have course := Findings.course_scanAll network position token (before.close network position)
  rcases List.mem_append.1 member with scanning | visited
  · have steps := course.reached.1 stage scanning
    exact ⟨Scanning.stackGraph_eq steps, fun other => Scanning.set?_eq steps⟩
  · obtain rfl := List.mem_singleton.1 visited
    have steps := course.reached.2
    -- the visit ends with a note, which is neither in the chart nor in the stacks
    simp only [Findings.visit, Findings.chart_note, Findings.stackGraph_note]
    exact ⟨Scanning.stackGraph_eq steps, fun other => Scanning.set?_eq steps⟩

/-- **Work at a position never disturbs the past.** From a rule that exists a run succeeds, and its
stages are those of closing positions and scanning tokens. While a position is closed, the set at
this position alone changes, and only nodes of calls that begin there are made or get callers and
empty returns. While a token is scanned, the set at the next position alone changes, and the stacks
do not. Nothing is ever taken back. So while a position is closed the callers of every call that
began earlier are those that it has in the end, and what is remembered of a call in the end are the
items on its node in which its rule stops, found where the call began. -/
theorem undisturbed_closings (network : Network) {startRule : Nat} {rule : Rule}
    (known : network.rule? startRule = some rule) (tokens : List Token) :
    ∃ recognition, network.recognition startRule tokens = .ok recognition ∧
      network.stages startRule rule tokens =
        (network.closings rule tokens).flatMap (network.stagesFrom (inputOf tokens)) ++
          [recognition.findings] ∧
      (∀ position before, (position, before) ∈ network.closings rule tokens →
        let closed := before.close network position
        (∀ stage ∈ before :: (Findings.closeStages network position before ++ [closed]),
          before.AltersOnly position stage ∧
            ∀ node frame, stage.stackGraph.frame? node = some frame → frame.position < position →
              stage.stackGraph.callers node = recognition.findings.stackGraph.callers node) ∧
        ∀ token, (inputOf tokens)[position]? = some token →
          ∀ stage ∈ Findings.scanAllStages network position token closed ++
              [before.visit network position token],
            stage.stackGraph = closed.stackGraph ∧
              ∀ other, other ≠ position + 1 →
                stage.chart.set? other = closed.chart.set? other) ∧
      (Findings.seeded rule tokens :: network.stages startRule rule tokens).Pairwise
        Findings.Keeps ∧
      ∀ node stop, stop ∈ recognition.findings.stackGraph.emptyReturns node ↔
        ∃ frame, recognition.findings.stackGraph.frame? node = some frame ∧ stop.stack = node ∧
          network.StopsIn frame.rule stop.state ∧
          recognition.findings.chart.contains frame.position stop = true := by
  obtain ⟨finished, -⟩ := network.finished_recognitionFrom known tokens
  refine ⟨_, recognition_of_rule? known tokens, network.stages_eq_flatMap startRule rule tokens, ?_,
    pairwise_keeps known tokens, fun node stop => finished.mem_emptyReturns_iff⟩
  intro position before member
  obtain ⟨swept, behind⟩ := swept_of_mem_closings known member
  have course := Findings.course_close network position before
  refine ⟨fun stage isStage => ?_, fun token _ stage => scanned_of_mem⟩
  have steps : Closing network position before stage := by
    rcases List.mem_cons.1 isStage with rfl | isStage
    · exact .refl
    rcases List.mem_append.1 isStage with isStage | isClosed
    · exact course.reached.1 stage isStage
    · rw [List.mem_singleton.1 isClosed]
      exact course.reached.2
  exact ⟨steps.altersOnly, fun node frame here began =>
    swept.callers_eq_of_began finished.linked behind steps here began⟩

/-- In the run of the sample on a seven, closing the first position changes nothing elsewhere, and
on the node of the first call the stop is remembered in which the call ends where it began. -/
theorem undisturbed_closings_doubling :
    ∃ recognition, doubling.recognition 0 [7] = .ok recognition ∧
      (0, Findings.seeded ⟨"S", 0, 1⟩ [7]) ∈ doubling.closings ⟨"S", 0, 1⟩ [7] ∧
      (Findings.seeded ⟨"S", 0, 1⟩ [7]).AltersOnly 0
        ((Findings.seeded ⟨"S", 0, 1⟩ [7]).close doubling 0) ∧
      recognition.findings.stackGraph.frame? 1 = some ⟨2, 0, 0⟩ ∧
      ⟨1, 0, 1⟩ ∈ recognition.findings.stackGraph.emptyReturns 1 := by
  have known : doubling.rule? 0 = some ⟨"S", 0, 1⟩ := rfl
  have member : (0, Findings.seeded ⟨"S", 0, 1⟩ [7]) ∈ doubling.closings ⟨"S", 0, 1⟩ [7] :=
    List.mem_append_left _ (List.mem_cons_self ..)
  obtain ⟨recognition, ran, -, closes, -, remembers⟩ := undisturbed_closings doubling known [7]
  obtain rfl : doubling.recognitionFrom 0 ⟨"S", 0, 1⟩ [7] = recognition :=
    Except.ok.inj ((recognition_of_rule? known [7]).symm.trans ran)
  have here : (doubling.recognitionFrom 0 ⟨"S", 0, 1⟩ [7]).findings.stackGraph.frame? 1 =
      some ⟨2, 0, 0⟩ := by decide +kernel
  have found : (doubling.recognitionFrom 0 ⟨"S", 0, 1⟩ [7]).findings.chart.contains 0
      ⟨1, 0, 1⟩ = true := by decide +kernel
  have closed := (closes 0 _ member).1 _ (List.mem_cons_of_mem _ (List.mem_concat_self ..))
  exact ⟨_, ran, member, closed.1, here, (remembers 1 _).2 ⟨_, here, rfl, ⟨_, rfl, rfl⟩, found⟩⟩

end Network

end TransitionNetworks
