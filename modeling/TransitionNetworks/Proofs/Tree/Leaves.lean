import TransitionNetworks.Proofs.Tree.Steps
import TransitionNetworks.Tree.Outline
import Mathlib.Data.List.Basic

/-! # The leaves of a tree

The outlines of nodes are unfolded in the order in which the nodes were attached, so the outlines of
earlier nodes stay when another is attached (`Node.outlines_push`). The ids that an assembly exposes
(`Assembly.exposed`) are those below its open rules, the root first: what is exposed has all leaves
of the assembly, from left to right.

Attaching a node adds its leaves behind the others (`Assembly.leaves_attach`), entering and exiting
rules adds none, and so an assembly that started empty has the leaves of the tokens consumed
(`Assembly.Reads.pushAll`), and its tree too (`ParseTree.reads_finish`). -/

namespace TransitionNetworks

namespace Outline

mutual

/-- The preorder in front of other nodes is the preorder with the others behind it. -/
theorem preorderOnto_eq (rest : List Node) : ∀ outline : Outline,
    outline.preorderOnto rest = outline.preorder ++ rest
  | leaf tip => rfl
  | branch top children => by
    rw [preorder, preorderOnto, preorderOnto, preorderAllOnto_eq rest children,
      preorderAllOnto_eq [] children, List.append_nil, List.cons_append]

/-- The preorders of consecutive outlines stand one behind the other. -/
theorem preorderAllOnto_eq (rest : List Node) : ∀ outlines : List Outline,
    preorderAllOnto rest outlines = outlines.flatMap preorder ++ rest
  | [] => rfl
  | outline :: outlines => by
    rw [preorderAllOnto, preorderAllOnto_eq rest outlines, preorderOnto_eq, List.flatMap_cons,
      List.append_assoc]

end

@[simp] theorem leaves_leaf (tip : Leaf) : (leaf tip).leaves = [tip] := rfl

/-- A branch has the leaves of its children. -/
@[simp] theorem leaves_branch (top : Branch) (children : List Outline) :
    (branch top children).leaves = children.flatMap leaves := by
  have order : (branch top children).preorder = .branch top :: children.flatMap preorder := by
    rw [preorder, preorderOnto, preorderAllOnto_eq, List.append_nil]
  rw [leaves, order, List.filterMap_cons_none (by rfl), List.filterMap_flatMap]
  rfl

end Outline

namespace Node

/-- The outlines of nodes, each at the place that is its node's id. -/
def outlines (nodes : Array Node) : Array Outline :=
  nodes.foldl (fun earlier node => earlier.push (node.outline earlier)) #[]

/-- One more node has one more outline, and the others keep theirs. -/
@[simp] theorem outlines_push (nodes : Array Node) (node : Node) :
    outlines (nodes.push node) = (outlines nodes).push (node.outline (outlines nodes)) := by
  simp [outlines]

/-- Every node has an outline. -/
@[simp] theorem size_outlines (nodes : Array Node) : (outlines nodes).size = nodes.size := by
  refine Array.foldl_induction
    (motive := fun n (earlier : Array Outline) => earlier.size = n) rfl ?_
  intro place earlier size
  rw [Array.size_push, size]

/-- The outlines of the nodes with some ids, from left to right. -/
def outlinesBelow (nodes : Array Node) (ids : List Nat) : List Outline :=
  ids.filterMap fun id => (outlines nodes)[id]?

/-- The outlines with ids in use stay when another node is attached. -/
theorem outlinesBelow_push {nodes : Array Node} {ids : List Nat}
    (inUse : ∀ id ∈ ids, id < nodes.size) (node : Node) :
    outlinesBelow (nodes.push node) ids = outlinesBelow nodes ids := by
  apply List.filterMap_congr
  intro id member
  have bound : id < (outlines nodes).size := by
    rw [size_outlines]
    exact inUse id member
  rw [outlines_push, Array.getElem?_push_lt bound, Array.getElem?_eq_getElem bound]

/-- The id of the last node has its outline. -/
theorem outlinesBelow_push_last (nodes : Array Node) (node : Node) :
    outlinesBelow (nodes.push node) [nodes.size] = [node.outline (outlines nodes)] := by
  have last : (outlines (nodes.push node))[nodes.size]? = some (node.outline (outlines nodes)) := by
    rw [outlines_push, ← size_outlines nodes, Array.getElem?_push_size]
  rw [outlinesBelow, List.filterMap_cons_some last, List.filterMap_nil]

/-- The leaves below the nodes with some ids, from left to right. -/
def leavesBelow (nodes : Array Node) (ids : List Nat) : List Leaf :=
  (ids.filterMap fun id => (outlines nodes)[id]?).flatMap Outline.leaves

/-- The leaves of a node that has others attached before it. -/
def leavesAmong (nodes : Array Node) : Node → List Leaf
  | leaf tip => [tip]
  | branch top => leavesBelow nodes top.children.toList

/-- The leaves below ids in a row stand in a row. -/
@[simp] theorem leavesBelow_append (nodes : Array Node) (ids others : List Nat) :
    leavesBelow nodes (ids ++ others) = leavesBelow nodes ids ++ leavesBelow nodes others := by
  simp [leavesBelow]

/-- The outline of a node has the leaves of the node. -/
theorem leaves_outline (nodes : Array Node) (node : Node) :
    (node.outline (outlines nodes)).leaves = node.leavesAmong nodes := by
  cases node with
  | leaf tip => exact Outline.leaves_leaf tip
  | branch top => exact Outline.leaves_branch _ _

/-- The leaves below ids in use stay when another node is attached. -/
theorem leavesBelow_push {nodes : Array Node} {ids : List Nat}
    (inUse : ∀ id ∈ ids, id < nodes.size) (node : Node) :
    leavesBelow (nodes.push node) ids = leavesBelow nodes ids :=
  congrArg (List.flatMap Outline.leaves) (outlinesBelow_push inUse node)

/-- Below the id of the last node are its leaves. -/
theorem leavesBelow_push_last (nodes : Array Node) (node : Node) :
    leavesBelow (nodes.push node) [nodes.size] = node.leavesAmong nodes := by
  have last := congrArg (List.flatMap Outline.leaves) (outlinesBelow_push_last nodes node)
  rw [List.flatMap_singleton, leaves_outline] at last
  exact last

end Node

namespace Assembly

/-- The ids below the open rules, from the root inwards. -/
def exposed (assembly : Assembly) : List Nat :=
  assembly.root.children.toList ++
    assembly.openBranches.reverse.flatMap fun branch => branch.children.toList

/-- The leaves below the open rules, from left to right. -/
def leaves (assembly : Assembly) : List Leaf := Node.leavesBelow assembly.nodes assembly.exposed

/-- The ids below the open rules are in use. -/
def InUse (assembly : Assembly) : Prop := ∀ id ∈ assembly.exposed, id < assembly.nodes.size

/-- A node attached is exposed behind the others. -/
@[simp] theorem exposed_attach (node : Node) (assembly : Assembly) :
    (assembly.attach node).exposed = assembly.exposed ++ [assembly.nodes.size] := by
  obtain ⟨cursor, nodes, root, openBranches⟩ := assembly
  cases openBranches <;> simp [exposed, attach, OpenBranch.addChild]

/-- With all rules exited, what is exposed are the children of the root. -/
theorem exposed_of_closed {assembly : Assembly} (closed : assembly.openBranches = []) :
    assembly.exposed = assembly.root.children.toList := by
  rw [exposed, closed, List.reverse_nil, List.flatMap_nil, List.append_nil]

/-- What is exposed inside a rule stands behind what is exposed around it. -/
theorem exposed_cons (cursor : Nat) (nodes : Array Node) (root innermost : OpenBranch)
    (outer : List OpenBranch) :
    (Assembly.mk cursor nodes root (innermost :: outer)).exposed =
      (Assembly.mk cursor nodes root outer).exposed ++ innermost.children.toList := by
  simp [exposed]

/-- Attaching a node keeps the ids below the open rules in use. -/
theorem InUse.attach {assembly : Assembly} (inUse : assembly.InUse) (node : Node) :
    (assembly.attach node).InUse := by
  intro id member
  rw [nodes_attach, Array.size_push]
  rw [exposed_attach, List.mem_append, List.mem_singleton] at member
  rcases member with old | last
  · exact Nat.lt_succ_of_lt (inUse id old)
  · omega

/-- **Attaching a node adds its leaves** behind the others. -/
theorem leaves_attach {assembly : Assembly} (inUse : assembly.InUse) (node : Node) :
    (assembly.attach node).leaves = assembly.leaves ++ node.leavesAmong assembly.nodes := by
  rw [leaves, leaves, nodes_attach, exposed_attach, Node.leavesBelow_append,
    Node.leavesBelow_push inUse, Node.leavesBelow_push_last]

/-- Entering a rule exposes nothing new. -/
@[simp] theorem exposed_opened (rule : Nat) (name : String) (assembly : Assembly) :
    (assembly.opened rule name).exposed = assembly.exposed := by
  simp [exposed, opened]

/-- The ids below the rules around the innermost one are in use. -/
theorem InUse.outer {cursor : Nat} {nodes : Array Node} {root innermost : OpenBranch}
    {outer : List OpenBranch} (inUse : (Assembly.mk cursor nodes root (innermost :: outer)).InUse) :
    (Assembly.mk cursor nodes root outer).InUse := by
  intro id member
  refine inUse id ?_
  rw [exposed_cons]
  exact List.mem_append_left _ member

/-- Exiting a rule keeps the ids in use and the leaves: what was below it is below it still. -/
theorem InUse.exitInnermost {assembly : Assembly} (inUse : assembly.InUse) :
    assembly.exitInnermost.InUse ∧ assembly.exitInnermost.leaves = assembly.leaves := by
  obtain ⟨cursor, nodes, root, openBranches⟩ := assembly
  cases openBranches with
  | nil => exact ⟨inUse, rfl⟩
  | cons innermost outer =>
    -- the branch is attached where its children stood, and has their leaves
    refine ⟨inUse.outer.attach _, ?_⟩
    rw [Assembly.exitInnermost, leaves_attach inUse.outer, leaves, leaves, exposed_cons,
      Node.leavesBelow_append]
    rfl

/-- Attaching a node leaves the rule of the root alone. -/
@[simp] theorem rule_root_attach (node : Node) (assembly : Assembly) :
    (assembly.attach node).root.rule = assembly.root.rule := by
  obtain ⟨cursor, nodes, root, openBranches⟩ := assembly
  cases openBranches <;> rfl

/-- Attaching a node leaves the beginning of the root alone. -/
@[simp] theorem start_root_attach (node : Node) (assembly : Assembly) :
    (assembly.attach node).root.start = assembly.root.start := by
  obtain ⟨cursor, nodes, root, openBranches⟩ := assembly
  cases openBranches <;> rfl

end Assembly

/-! ## Assembling -/

/-- The leaves of the tokens in front of a position. -/
def leavesUpTo (tokens : Array Token) (position : Nat) : List Leaf :=
  (tokens.toList.take position).zipIdx.map fun (token, index) => ⟨index, token⟩

/-- The leaf of a token comes last in front of the next position. -/
theorem leavesUpTo_succ {tokens : Array Token} {position : Nat} {token : Token}
    (read : tokens[position]? = some token) :
    leavesUpTo tokens (position + 1) = leavesUpTo tokens position ++ [⟨position, token⟩] := by
  have bound : position < tokens.size := (Array.getElem?_eq_some_iff.1 read).1
  -- the leaf has the number of those in front of it as index
  have length : (tokens.toList.take position).length = position :=
    List.length_take_of_le (Nat.le_of_lt bound)
  rw [leavesUpTo, List.take_add_one, Array.getElem?_toList, read, List.zipIdx_append, length]
  simp [leavesUpTo]

/-- The leaves in front of a position of the input have the indexes in front of it, in order. -/
theorem map_index_leavesUpTo {tokens : Array Token} {position : Nat}
    (inside : position ≤ tokens.size) :
    (leavesUpTo tokens position).map Leaf.index = List.range position := by
  have length : (tokens.toList.take position).length = position := List.length_take_of_le inside
  rw [leavesUpTo, List.map_map, List.range_eq_range']
  have indexes := List.zipIdx_map_snd 0 (tokens.toList.take position)
  rw [length] at indexes
  exact indexes

/-- The leaves in front of a position have the tokens there. -/
theorem map_token_leavesUpTo (tokens : Array Token) (position : Nat) :
    (leavesUpTo tokens position).map Leaf.token = tokens.toList.take position := by
  rw [leavesUpTo, List.map_map]
  exact List.zipIdx_map_fst 0 (tokens.toList.take position)

namespace Assembly

/-- **An assembly that reads its tokens** from a start rule: its leaves are those of the tokens in
front of the cursor. -/
structure Reads (tokens : Array Token) (startRule : Nat) (assembly : Assembly) : Prop where
  /-- The ids below the open rules are in use. -/
  inUse : assembly.InUse
  /-- The cursor is inside the input. -/
  inside : assembly.cursor ≤ tokens.size
  /-- The leaves are those of the tokens consumed. -/
  leaves : assembly.leaves = leavesUpTo tokens assembly.cursor
  /-- The root is the start rule. -/
  rule : assembly.root.rule = startRule
  /-- The root begins with the input. -/
  start : assembly.root.start = 0

variable {network : Network} {tokens : Array Token} {startRule : Nat}

/-- An assembly starts by reading nothing. -/
theorem reads_start {assembly : Assembly} (started : start network startRule = .ok assembly)
    (tokens : Array Token) : assembly.Reads tokens startRule := by
  obtain ⟨name, -, rfl⟩ := start_eq_ok_iff.1 started
  exact ⟨fun id member => absurd member List.not_mem_nil, Nat.zero_le _, rfl, rfl, rfl⟩

/-- Exiting a rule reads nothing. -/
theorem Reads.exitInnermost {assembly : Assembly} (reads : assembly.Reads tokens startRule) :
    assembly.exitInnermost.Reads tokens startRule := by
  obtain ⟨inUse, leaves⟩ := reads.inUse.exitInnermost
  obtain ⟨cursor, nodes, root, openBranches⟩ := assembly
  cases openBranches with
  | nil => exact reads
  | cons innermost outer =>
    refine ⟨inUse, ?_, ?_, ?_, ?_⟩
    · rw [cursor_exitInnermost]
      exact reads.inside
    · rw [leaves, cursor_exitInnermost]
      exact reads.leaves
    · exact (rule_root_attach _ _).trans reads.rule
    · exact (start_root_attach _ _).trans reads.start

/-- **An accepted event adds the leaves of the tokens that it consumes.** -/
theorem Accepts.exists_leaves {event : Event} {assembly later : Assembly}
    (accepted : Accepts network tokens event assembly later) (inUse : assembly.InUse) :
    ∃ new, later.leaves = assembly.leaves ++ new ∧
      leavesUpTo tokens later.cursor = leavesUpTo tokens assembly.cursor ++ new := by
  cases accepted with
  | enter known =>
    refine ⟨[], ?_, (List.append_nil _).symm⟩
    rw [Assembly.leaves, exposed_opened, List.append_nil]
    rfl
  | exit isOpen =>
    rw [inUse.exitInnermost.2, cursor_exitInnermost]
    exact ⟨[], (List.append_nil _).symm, (List.append_nil _).symm⟩
  | consume read => exact ⟨_, leaves_attach inUse _, leavesUpTo_succ read⟩

/-- An accepted event leaves the cursor inside the input. -/
theorem Accepts.cursor_le {event : Event} {assembly later : Assembly}
    (accepted : Accepts network tokens event assembly later)
    (inside : assembly.cursor ≤ tokens.size) : later.cursor ≤ tokens.size := by
  cases accepted with
  | enter known => exact inside
  | exit isOpen =>
    rw [cursor_exitInnermost]
    exact inside
  | consume read => exact (Array.getElem?_eq_some_iff.1 read).1

/-- **An accepted event keeps an assembly reading its tokens.** -/
theorem Reads.accepts {event : Event} {assembly later : Assembly}
    (reads : assembly.Reads tokens startRule)
    (accepted : Accepts network tokens event assembly later) : later.Reads tokens startRule := by
  obtain ⟨new, grown, behind⟩ := accepted.exists_leaves reads.inUse
  rw [reads.leaves, ← behind] at grown
  have inside := accepted.cursor_le reads.inside
  cases accepted with
  | @enter _ rule name known =>
    refine ⟨?_, inside, grown, reads.rule, reads.start⟩
    intro id member
    rw [exposed_opened] at member
    exact reads.inUse id member
  | exit isOpen => exact reads.exitInnermost
  | consume read =>
    exact ⟨reads.inUse.attach _, inside, grown, (rule_root_attach _ _).trans reads.rule,
      (start_root_attach _ _).trans reads.start⟩

/-- **Events taken without a fault keep an assembly reading its tokens.** -/
theorem Reads.pushAll {events : List Event} {assembly last : Assembly}
    (reads : assembly.Reads tokens startRule)
    (taken : assembly.pushAll network tokens events = .ok last) : last.Reads tokens startRule :=
  pushAll_invariant (·.Reads tokens startRule)
    (fun _ _ _ accepted reads => reads.accepts accepted) taken reads

/-- Exiting rules reads nothing. -/
theorem Reads.exitMany {assembly : Assembly} (reads : assembly.Reads tokens startRule)
    (count : Nat) : (assembly.exitMany count).Reads tokens startRule :=
  exitMany_invariant (·.Reads tokens startRule) (fun _ reads => reads.exitInnermost) count reads

end Assembly

namespace ParseTree

/-- The leaves of a tree are those below its root. -/
theorem leaves_eq (tree : ParseTree) :
    tree.leaves = Node.leavesBelow tree.nodes tree.root.children.toList :=
  Node.leaves_outline tree.nodes (.branch tree.root)

/-- A finished tree has the leaves of its assembly. -/
theorem leaves_finish {assembly : Assembly} (inUse : assembly.InUse) :
    assembly.finish.leaves = assembly.leaves := by
  obtain ⟨-, same⟩ := Assembly.exitMany_invariant
    (fun last => last.InUse ∧ last.leaves = assembly.leaves)
    (fun last before => ⟨before.1.exitInnermost.1, before.1.exitInnermost.2.trans before.2⟩)
    assembly.openBranches.length ⟨inUse, rfl⟩
  -- all rules are exited, so what is exposed are the children of the root
  rw [leaves_eq, ← same, Assembly.leaves,
    Assembly.exposed_of_closed assembly.openBranches_exitMany]
  rfl

/-- **A finished tree reads its tokens.** Its root is the start rule and goes from the first
position to the cursor, and its leaves are those of the tokens in between. -/
theorem reads_finish {tokens : Array Token} {startRule : Nat} {assembly : Assembly}
    (reads : assembly.Reads tokens startRule) :
    assembly.finish.root.rule = startRule ∧
      assembly.finish.root.span = ⟨0, assembly.cursor⟩ ∧
      assembly.finish.leaves = leavesUpTo tokens assembly.cursor := by
  have last := reads.exitMany assembly.openBranches.length
  have span : assembly.finish.root.span =
      ⟨(assembly.exitMany assembly.openBranches.length).root.start,
        (assembly.exitMany assembly.openBranches.length).cursor⟩ := rfl
  rw [last.start, Assembly.cursor_exitMany] at span
  exact ⟨last.rule, span, (leaves_finish reads.inUse).trans reads.leaves⟩

end ParseTree

end TransitionNetworks
