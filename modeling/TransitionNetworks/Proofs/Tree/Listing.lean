import TransitionNetworks.Proofs.Tree.Brackets
import TransitionNetworks.Proofs.Tree.Leaves

/-! # The events of a tree

A tree lists the events that it was assembled from: a rule is entered, what is below it is listed
from left to right, and the rule is exited (`Outline.events`). The listing of an assembly
(`Assembly.listing`) has the rules still open entered and not exited. An accepted event stands
behind it (`Assembly.Accepts.listing_eq`), so the listing is that of the events taken
(`Assembly.Reads.listing_eq`).

To finish an assembly is to take an exit of each rule still open (`Assembly.pushAll_exits`), so a
tree is the tree of its completed events (`ParseTree.exists_completed`) and lists them
(`ParseTree.listing_eq`). -/

namespace TransitionNetworks

namespace Outline

mutual

/-- The events of an outline. -/
def events : Outline → List Event
  | leaf tip => [.consume tip.index]
  | branch top children => .enter top.rule :: (eventsAll children ++ [.exit top.rule])

/-- The events of consecutive outlines. -/
def eventsAll : List Outline → List Event
  | [] => []
  | outline :: outlines => outline.events ++ eventsAll outlines

end

/-- Outlines in a row have their events in a row. -/
@[simp] theorem eventsAll_append (outlines others : List Outline) :
    eventsAll (outlines ++ others) = eventsAll outlines ++ eventsAll others := by
  induction outlines with
  | nil => rfl
  | cons outline outlines ih => simp [eventsAll, ih]

end Outline

namespace Node

/-- The events below the nodes with some ids, from left to right. -/
def eventsBelow (nodes : Array Node) (ids : List Nat) : List Event :=
  Outline.eventsAll (outlinesBelow nodes ids)

/-- The events of a node that has others attached before it. -/
def eventsAmong (nodes : Array Node) : Node → List Event
  | leaf tip => [.consume tip.index]
  | branch top =>
    .enter top.rule :: (eventsBelow nodes top.children.toList ++ [.exit top.rule])

/-- Nodes in a row have the events below them in a row. -/
@[simp] theorem eventsBelow_append (nodes : Array Node) (ids others : List Nat) :
    eventsBelow nodes (ids ++ others) = eventsBelow nodes ids ++ eventsBelow nodes others := by
  simp [eventsBelow, outlinesBelow]

/-- The events below ids in use stay when another node is attached. -/
theorem eventsBelow_push {nodes : Array Node} {ids : List Nat}
    (inUse : ∀ id ∈ ids, id < nodes.size) (node : Node) :
    eventsBelow (nodes.push node) ids = eventsBelow nodes ids :=
  congrArg Outline.eventsAll (outlinesBelow_push inUse node)

/-- Below the id of the last node are its events. -/
theorem eventsBelow_push_last (nodes : Array Node) (node : Node) :
    eventsBelow (nodes.push node) [nodes.size] = node.eventsAmong nodes := by
  rw [eventsBelow, outlinesBelow_push_last, Outline.eventsAll, Outline.eventsAll, List.append_nil]
  cases node <;> rfl

end Node

/-- The events since an open rule was entered. -/
def OpenBranch.listing (nodes : Array Node) (branch : OpenBranch) : List Event :=
  .enter branch.rule :: Node.eventsBelow nodes branch.children.toList

namespace Assembly

/-- **The listing of an assembly.** The events below the root, with the rules still open entered. -/
def listing (assembly : Assembly) : List Event :=
  Node.eventsBelow assembly.nodes assembly.root.children.toList ++
    assembly.openBranches.reverse.flatMap (OpenBranch.listing assembly.nodes)

/-- **Attaching a node lists its events** behind the others. -/
theorem listing_attach {assembly : Assembly} (inUse : assembly.InUse) (node : Node) :
    (assembly.attach node).listing = assembly.listing ++ node.eventsAmong assembly.nodes := by
  obtain ⟨cursor, nodes, root, openBranches⟩ := assembly
  -- what is listed below the ids in use stays
  have rootSame : Node.eventsBelow (nodes.push node) root.children.toList =
      Node.eventsBelow nodes root.children.toList :=
    Node.eventsBelow_push (fun id member => inUse id (List.mem_append_left _ member)) node
  have same : ∀ branch ∈ openBranches,
      OpenBranch.listing (nodes.push node) branch = OpenBranch.listing nodes branch := by
    intro branch member
    rw [OpenBranch.listing, Node.eventsBelow_push, OpenBranch.listing]
    intro id below
    exact inUse id (List.mem_append_right _
      (List.mem_flatMap.2 ⟨branch, List.mem_reverse.2 member, below⟩))
  cases openBranches with
  | nil =>
    simp [attach, listing, OpenBranch.addChild, rootSame, Node.eventsBelow_push_last]
  | cons innermost outer =>
    have outerSame : outer.reverse.flatMap (OpenBranch.listing (nodes.push node)) =
        outer.reverse.flatMap (OpenBranch.listing nodes) :=
      List.flatMap_congr fun branch member =>
        same branch (List.mem_cons_of_mem _ (List.mem_reverse.1 member))
    have innermostSame := same innermost (List.mem_cons_self ..)
    simp only [OpenBranch.listing, List.cons.injEq, true_and] at innermostSame
    simp [attach, listing, OpenBranch.addChild, rootSame, outerSame, innermostSame,
      Node.eventsBelow_push_last, OpenBranch.listing]

variable {network : Network} {tokens : Array Token} {startRule : Nat}

/-- **An accepted event stands behind the listing.** -/
theorem Accepts.listing_eq {event : Event} {assembly later : Assembly}
    (accepted : Accepts network tokens event assembly later) (inUse : assembly.InUse) :
    later.listing = assembly.listing ++ [event] := by
  cases accepted with
  | enter known => simp [opened, listing, OpenBranch.listing, Node.eventsBelow,
      Node.outlinesBelow, Outline.eventsAll]
  | consume read => exact listing_attach inUse _
  | @exit _ innermost outer isOpen =>
    obtain ⟨cursor, nodes, root, openBranches⟩ := assembly
    cases isOpen
    -- the branch attached lists what was listed since its rule was entered, and the exit
    rw [exitInnermost, listing_attach inUse.outer]
    simp [listing, OpenBranch.listing, Node.eventsAmong, OpenBranch.close]

/-- **Events taken without a fault stand behind the listing.** -/
theorem Reads.listing_eq {events : List Event} {assembly last : Assembly}
    (reads : assembly.Reads tokens startRule)
    (taken : assembly.pushAll network tokens events = .ok last) :
    last.listing = assembly.listing ++ events := by
  induction events generalizing assembly with
  | nil =>
    cases taken
    rw [List.append_nil]
  | cons event rest ih =>
    obtain ⟨next, accepted, taken⟩ := pushAll_cons_eq_ok_iff.1 taken
    rw [ih (reads.accepts accepted) taken, accepted.listing_eq reads.inUse, List.append_assoc]
    rfl

/-! ## Rules still open -/

/-- The rules that are open, the innermost first. -/
def opens (assembly : Assembly) : List Nat := assembly.openBranches.map OpenBranch.rule

/-- Attaching a node leaves the same rules open. -/
@[simp] theorem opens_attach (node : Node) (assembly : Assembly) :
    (assembly.attach node).opens = assembly.opens := by
  obtain ⟨cursor, nodes, root, openBranches⟩ := assembly
  cases openBranches <;> rfl

/-- Consuming a token opens and closes nothing. -/
@[simp] theorem opens_consumed (token : Token) (assembly : Assembly) :
    (assembly.consumed token).opens = assembly.opens := opens_attach _ _

/-- Exiting takes the innermost rule away. -/
@[simp] theorem opens_exitInnermost (assembly : Assembly) :
    assembly.exitInnermost.opens = assembly.opens.tail := by
  obtain ⟨cursor, nodes, root, openBranches⟩ := assembly
  cases openBranches with
  | nil => rfl
  | cons innermost outer =>
    rw [exitInnermost, opens_attach]
    rfl

/-- An accepted event opens and closes rules. -/
theorem Accepts.opens_eq {event : Event} {assembly later : Assembly}
    (accepted : Accepts network tokens event assembly later) :
    later.opens = event.openBehind assembly.opens := by
  cases accepted with
  | enter known => rfl
  | exit isOpen => exact opens_exitInnermost _
  | consume read => exact opens_consumed _ _

/-- Events taken without a fault open and close rules one after the other. -/
theorem opens_of_pushAll {events : List Event} {assembly last : Assembly}
    (taken : assembly.pushAll network tokens events = .ok last) :
    last.opens = events.foldl Event.openBehind assembly.opens := by
  induction events generalizing assembly with
  | nil =>
    cases taken
    rfl
  | cons event rest ih =>
    obtain ⟨next, accepted, taken⟩ := pushAll_cons_eq_ok_iff.1 taken
    rw [ih taken, accepted.opens_eq, List.foldl_cons]

/-- **To exit all open rules is to take their exits,** the innermost first. -/
theorem pushAll_exits (network : Network) (tokens : Array Token) (assembly : Assembly) :
    assembly.pushAll network tokens (assembly.opens.map .exit) =
      .ok (assembly.exitMany assembly.openBranches.length) := by
  suffices general : ∀ (opened : List Nat) (assembly : Assembly), assembly.opens = opened →
      assembly.pushAll network tokens (opened.map .exit) = .ok (assembly.exitMany opened.length) by
    have exits := general _ assembly rfl
    rwa [opens, List.length_map] at exits
  intro opened
  induction opened with
  | nil => exact fun _ _ => rfl
  | cons rule outer ih =>
    intro assembly rules
    obtain ⟨innermost, others, isOpen, rfl, -⟩ := List.map_eq_cons_iff.1 rules
    refine pushAll_cons_eq_ok_iff.2 ⟨_, .exit isOpen, ?_⟩
    exact ih _ (by rw [opens_exitInnermost, rules, List.tail_cons])

end Assembly

namespace ParseTree

variable {network : Network} {tokens : Array Token} {startRule : Nat} {events : List Event}
  {tree : ParseTree}

/-- **The events of a tree** below its root, from left to right. -/
def listing (tree : ParseTree) : List Event :=
  Outline.eventsAll (tree.root.children.toList.filterMap fun id => tree.outlines[id]?)

/-- **A tree is that of its completed events,** which leave no rule open. -/
theorem exists_completed (assembled : assemble network tokens startRule events = .ok tree) :
    ∃ name last, network.ruleName? startRule = some name ∧
      (Assembly.rooted startRule name).pushAll network tokens (completed events) = .ok last ∧
      last.openBranches = [] ∧ last.finish = tree := by
  obtain ⟨name, last, known, taken, rfl⟩ := assemble_eq_ok_iff.1 assembled
  have opens : last.opens = openRules events := Assembly.opens_of_pushAll taken
  have exits := last.pushAll_exits network tokens
  rw [opens] at exits
  have closed := last.openBranches_exitMany
  refine ⟨name, _, known, Assembly.pushAll_append_eq_ok_iff.2 ⟨last, taken, exits⟩, closed, ?_⟩
  rw [Assembly.finish, closed]
  rfl

/-- **A tree lists its completed events.** -/
theorem listing_eq (assembled : assemble network tokens startRule events = .ok tree) :
    tree.listing = completed events := by
  obtain ⟨name, last, known, taken, closed, rfl⟩ := exists_completed assembled
  have reads := Assembly.reads_start (Assembly.start_eq_ok_iff.2 ⟨name, known, rfl⟩) tokens
  have listed := reads.listing_eq taken
  have nothing : (Assembly.rooted startRule name).listing = [] := rfl
  rw [nothing, List.nil_append, Assembly.listing, closed, List.reverse_nil, List.flatMap_nil,
    List.append_nil] at listed
  rw [← listed, Assembly.finish, closed]
  rfl

end ParseTree

end TransitionNetworks
