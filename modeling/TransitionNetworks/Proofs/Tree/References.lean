import TransitionNetworks.Proofs.Tree.Leaves

/-! # Which ids nodes refer to

Every node has the next free id, and the innermost open rule refers to it as long as the rule is
open. So the ids below open rules increase from the root inwards, those below a branch are smaller
than its own (`Assembly.Numbered`), and attaching a node adds one reference, to the node
(`Assembly.references_attach`), while exiting a rule moves the references below it to the branch
attached (`Assembly.addsNode_exitInnermost`). -/

namespace TransitionNetworks

namespace Node

/-- The ids of the nodes directly below a node. -/
def children : Node → List Nat
  | leaf _ => []
  | branch top => top.children.toList

/-- **Descending ids.** The nodes directly below a node have smaller ids than the node. -/
def Descending (nodes : Array Node) : Prop :=
  ∀ (id : Nat) (node : Node), nodes[id]? = some node → ∀ child ∈ node.children, child < id

/-- Descending ids stay so without the last node. -/
theorem Descending.of_push {nodes : Array Node} {last : Node}
    (descending : Descending (nodes.push last)) : Descending nodes := by
  intro id node here
  obtain ⟨bound, -⟩ := Array.getElem?_eq_some_iff.1 here
  refine descending id node ?_
  rwa [Array.getElem?_push_lt bound, ← Array.getElem?_eq_getElem bound]

/-- Descending ids stay so when a node is attached whose children are there. -/
theorem Descending.push {nodes : Array Node} (descending : Descending nodes) {last : Node}
    (inUse : ∀ child ∈ last.children, child < nodes.size) : Descending (nodes.push last) := by
  intro id node here
  rw [Array.getElem?_push] at here
  split at here
  · rename_i isLast
    cases here
    exact isLast ▸ inUse
  · exact descending id node here

end Node

namespace ParseTree

/-- The branches of a tree, the root included. -/
def HasBranch (tree : ParseTree) (branch : Branch) : Prop :=
  branch = tree.root ∨ .branch branch ∈ tree.nodes

/-- The ids to which the nodes of a tree refer, as often as they do. -/
def references (tree : ParseTree) : List Nat :=
  tree.nodes.toList.flatMap Node.children ++ tree.root.children.toList

end ParseTree

namespace Assembly

/-- The ids to which nodes and open rules refer, as often as they do. -/
def references (assembly : Assembly) : List Nat :=
  assembly.nodes.toList.flatMap Node.children ++ assembly.exposed

/-- **Numbered assemblies.** Ids are smaller below, and increase from left to right. -/
structure Numbered (assembly : Assembly) : Prop where
  /-- The ids below open rules are in use. -/
  inUse : assembly.InUse
  /-- The ids below open rules increase from the root inwards. -/
  exposed : assembly.exposed.Pairwise (· < ·)
  /-- The ids below a node are smaller than its own. -/
  descending : Node.Descending assembly.nodes
  /-- The ids below a node increase. -/
  increasing : ∀ node ∈ assembly.nodes, node.children.Pairwise (· < ·)

variable {network : Network} {tokens : Array Token}

/-- **Attaching a node adds a reference to it,** and brings those of the node. -/
theorem references_attach (node : Node) (assembly : Assembly) :
    (assembly.attach node).references.Perm
      (assembly.references ++ node.children ++ [assembly.nodes.size]) := by
  rw [references, nodes_attach, exposed_attach, Array.toList_push, List.flatMap_append,
    List.flatMap_singleton, references, ← List.append_assoc]
  refine List.Perm.append_right _ ?_
  rw [List.append_assoc, List.append_assoc]
  exact List.Perm.append_left _ List.perm_append_comm

/-- **One more node,** and one more reference, to that node. -/
structure AddsNode (assembly later : Assembly) : Prop where
  /-- There is one more node. -/
  size : later.nodes.size = assembly.nodes.size + 1
  /-- There is one more reference, to the next id. -/
  references : later.references.Perm (assembly.references ++ [assembly.nodes.size])

/-- **Exiting a rule adds its branch,** which takes over the references of the rule. -/
theorem addsNode_exitInnermost {assembly : Assembly} {innermost : OpenBranch}
    {outer : List OpenBranch} (isOpen : assembly.openBranches = innermost :: outer) :
    assembly.AddsNode assembly.exitInnermost := by
  obtain ⟨cursor, nodes, root, openBranches⟩ := assembly
  cases isOpen
  have attached := references_attach (.branch (innermost.close cursor))
    (Assembly.mk cursor nodes root outer)
  have same : (Assembly.mk cursor nodes root outer).references ++
      Node.children (.branch (innermost.close cursor)) =
        (Assembly.mk cursor nodes root (innermost :: outer)).references := by
    rw [references, references, exposed_cons, List.append_assoc]
    rfl
  refine ⟨?_, same ▸ attached⟩
  rw [exitInnermost, nodes_attach, Array.size_push]

/-- **Consuming a token adds its leaf.** -/
theorem addsNode_consumed (token : Token) (assembly : Assembly) :
    assembly.AddsNode (assembly.consumed token) := by
  have attached := references_attach (.leaf ⟨assembly.cursor, token⟩) assembly
  rw [Node.children, List.append_nil] at attached
  refine ⟨?_, attached⟩
  rw [consumed, nodes_attach, Array.size_push]

/-- Entering a rule refers to nothing. -/
theorem references_opened (rule : Nat) (name : String) (assembly : Assembly) :
    (assembly.opened rule name).references = assembly.references := by
  rw [references, exposed_opened]
  rfl

/-- **Exiting a rule adds a node,** or changes nothing if no rule is open. -/
theorem exitInnermost_eq_or_addsNode (assembly : Assembly) :
    assembly.exitInnermost = assembly ∨ assembly.AddsNode assembly.exitInnermost := by
  cases isOpen : assembly.openBranches with
  | nil =>
    obtain ⟨cursor, nodes, root, openBranches⟩ := assembly
    cases isOpen
    exact .inl rfl
  | cons innermost outer => exact .inr (addsNode_exitInnermost isOpen)

/-- **An event accepted adds a node,** or refers to what was referred to before. -/
theorem Accepts.references_eq_or_addsNode {event : Event} {assembly later : Assembly}
    (accepted : Accepts network tokens event assembly later) :
    later.nodes.size = assembly.nodes.size ∧ later.references = assembly.references ∨
      assembly.AddsNode later := by
  cases accepted with
  | @enter _ rule name known => exact .inl ⟨rfl, references_opened rule name assembly⟩
  | exit isOpen => exact .inr (addsNode_exitInnermost isOpen)
  | consume read => exact .inr (addsNode_consumed _ _)

/-- Attaching a node keeps an assembly numbered, if the children of the node are. -/
theorem Numbered.attach {assembly : Assembly} (numbered : assembly.Numbered) (node : Node)
    (inUse : ∀ child ∈ node.children, child < assembly.nodes.size)
    (increasing : node.children.Pairwise (· < ·)) : (assembly.attach node).Numbered := by
  refine ⟨numbered.inUse.attach node, ?_, ?_, ?_⟩
  · rw [exposed_attach, List.pairwise_append]
    refine ⟨numbered.exposed, List.pairwise_singleton _ _, ?_⟩
    intro id member other isLast
    rw [List.mem_singleton.1 isLast]
    exact numbered.inUse id member
  · rw [nodes_attach]
    exact numbered.descending.push inUse
  · rw [nodes_attach]
    intro other member
    rcases Array.mem_push.1 member with old | rfl
    · exact numbered.increasing other old
    · exact increasing

/-- An assembly stays numbered without its innermost open rule. -/
theorem Numbered.outer {cursor : Nat} {nodes : Array Node} {root innermost : OpenBranch}
    {outer : List OpenBranch}
    (numbered : (Assembly.mk cursor nodes root (innermost :: outer)).Numbered) :
    (Assembly.mk cursor nodes root outer).Numbered := by
  have exposed := numbered.exposed
  rw [exposed_cons, List.pairwise_append] at exposed
  exact ⟨numbered.inUse.outer, exposed.1, numbered.descending, numbered.increasing⟩

/-- Exiting a rule keeps an assembly numbered. -/
theorem Numbered.exitInnermost {assembly : Assembly} (numbered : assembly.Numbered) :
    assembly.exitInnermost.Numbered := by
  obtain ⟨cursor, nodes, root, openBranches⟩ := assembly
  cases openBranches with
  | nil => exact numbered
  | cons innermost outer =>
    have inUse := numbered.inUse
    have exposed := numbered.exposed
    rw [InUse, exposed_cons] at inUse
    rw [exposed_cons, List.pairwise_append] at exposed
    exact numbered.outer.attach (.branch (innermost.close cursor))
      (fun id member => inUse id (List.mem_append_right _ member)) exposed.2.1

/-- Accepted events keep an assembly numbered. -/
theorem Numbered.accepts {event : Event} {assembly later : Assembly}
    (numbered : assembly.Numbered) (accepted : Accepts network tokens event assembly later) :
    later.Numbered := by
  cases accepted with
  | @enter _ rule name known =>
    have same := exposed_opened rule name assembly
    refine ⟨?_, ?_, numbered.descending, numbered.increasing⟩
    · rw [InUse, same]
      exact numbered.inUse
    · rw [same]
      exact numbered.exposed
  | exit isOpen => exact numbered.exitInnermost
  | @consume _ token read =>
    have attached := numbered.attach (.leaf ⟨assembly.cursor, token⟩)
      (fun _ member => absurd member List.not_mem_nil) List.Pairwise.nil
    exact ⟨attached.inUse, attached.exposed, attached.descending, attached.increasing⟩

/-- A root without children is numbered. -/
theorem numbered_rooted (rule : Nat) (name : String) : (rooted rule name).Numbered := by
  refine ⟨fun _ member => absurd member List.not_mem_nil, List.Pairwise.nil, ?_, ?_⟩
  · intro id node here
    simp [rooted] at here
  · exact fun _ member => absurd member (Array.not_mem_empty _)

/-- **A finished tree is numbered,** if its assembly was. -/
theorem Numbered.finish {assembly : Assembly} (numbered : assembly.Numbered) :
    Node.Descending assembly.finish.nodes ∧
      (∀ id ∈ assembly.finish.root.children.toList, id < assembly.finish.nodes.size) ∧
      ∀ branch, assembly.finish.HasBranch branch → branch.children.toList.Pairwise (· < ·) := by
  have last := exitMany_invariant Numbered (fun _ numbered => numbered.exitInnermost)
    assembly.openBranches.length numbered
  have closed := exposed_of_closed assembly.openBranches_exitMany
  have inUse := last.inUse
  have exposed := last.exposed
  rw [InUse, closed] at inUse
  rw [closed] at exposed
  refine ⟨last.descending, inUse, ?_⟩
  rintro branch (rfl | member)
  · exact exposed
  · exact last.increasing _ member

/-- A finished tree has the references of its assembly with all rules exited. -/
theorem references_finish (assembly : Assembly) :
    assembly.finish.references =
      (assembly.exitMany assembly.openBranches.length).references := by
  rw [references, exposed_of_closed assembly.openBranches_exitMany]
  rfl

end Assembly

end TransitionNetworks
