import TransitionNetworks.Proofs.Tree.Rows
import TransitionNetworks.Proofs.Tree.Traversal
import TransitionNetworks.Proofs.WellFormed

/-! # Trees tile their input

A tree assembled without a fault leaves nothing out: below every branch the nodes tile what the
branch goes through, every node is referred to once, and a traversal goes through each of them once
and finds the leaves of the tokens consumed (`ParseTree.assemble_tiles`).

Of the assembly under way this is three invariants that accepted events keep: it is arranged without
gaps, it is numbered, and the references are the ids in use, each once (`Assembly.Complete`). A node
has a place in the count as soon as it begins (`Assembly.begun`). -/

namespace TransitionNetworks

namespace Assembly

variable {network : Network} {tokens : Array Token}

/-- How many nodes have begun: those attached, and those whose rules are open. -/
def begun (assembly : Assembly) : Nat := assembly.nodes.size + assembly.openBranches.length

/-- Attaching a node leaves as many rules open. -/
@[simp] theorem length_openBranches_attach (node : Node) (assembly : Assembly) :
    (assembly.attach node).openBranches.length = assembly.openBranches.length := by
  obtain ⟨cursor, nodes, root, openBranches⟩ := assembly
  cases openBranches <;> rfl

/-- A rule exited has begun before. -/
@[simp] theorem begun_exitInnermost (assembly : Assembly) :
    assembly.exitInnermost.begun = assembly.begun := by
  obtain ⟨cursor, nodes, root, openBranches⟩ := assembly
  cases openBranches with
  | nil => rfl
  | cons innermost outer =>
    simp only [begun, exitInnermost, nodes_attach, length_openBranches_attach, Array.size_push,
      List.length_cons]
    omega

/-- A finished tree has the nodes that have begun. -/
theorem size_finish (assembly : Assembly) : assembly.finish.size = assembly.begun := by
  have same := exitMany_invariant (fun last => last.begun = assembly.begun)
    (fun last same => (begun_exitInnermost last).trans same) assembly.openBranches.length rfl
  rwa [begun, openBranches_exitMany, List.length_nil, Nat.add_zero] at same

/-- A node begins with a rule entered and with a token consumed. -/
theorem Accepts.begun_eq {event : Event} {assembly later : Assembly}
    (accepted : Accepts network tokens event assembly later) :
    later.begun = assembly.begun + [event].countP Event.begins := by
  cases accepted with
  | enter known => rfl
  | exit isOpen => exact begun_exitInnermost assembly
  | consume read =>
    show (assembly.attach _).nodes.size + (assembly.attach _).openBranches.length = _
    rw [nodes_attach, length_openBranches_attach, Array.size_push, Nat.add_right_comm]
    rfl

/-- Events taken begin as many nodes as they enter rules and consume tokens. -/
theorem begun_of_pushAll {events : List Event} {assembly last : Assembly}
    (taken : assembly.pushAll network tokens events = .ok last) :
    last.begun = assembly.begun + events.countP Event.begins := by
  induction events generalizing assembly with
  | nil =>
    cases taken
    rfl
  | cons event rest ih =>
    obtain ⟨next, accepted, taken⟩ := pushAll_cons_eq_ok_iff.1 taken
    rw [ih taken, accepted.begun_eq, Nat.add_assoc, ← List.countP_append, List.singleton_append]

/-- **Complete assemblies:** nothing is left out. -/
structure Complete (assembly : Assembly) : Prop where
  /-- There are no gaps between nodes. -/
  arranged : assembly.Arranged (· = ·)
  /-- Ids are smaller below, and increase from left to right. -/
  numbered : assembly.Numbered
  /-- Every id in use is referred to once. -/
  references : assembly.references.Perm (List.range assembly.nodes.size)

/-- With one more node, every id is referred to once still. -/
theorem AddsNode.perm_range {assembly later : Assembly} (adds : assembly.AddsNode later)
    (references : assembly.references.Perm (List.range assembly.nodes.size)) :
    later.references.Perm (List.range later.nodes.size) := by
  rw [adds.size, List.range_succ]
  exact adds.references.trans (references.append_right _)

/-- Nothing is left out when the innermost rule is left. -/
theorem Complete.exitInnermost {assembly : Assembly} (complete : assembly.Complete) :
    assembly.exitInnermost.Complete := by
  refine ⟨complete.arranged.exitInnermost spacing_eq, complete.numbered.exitInnermost, ?_⟩
  rcases exitInnermost_eq_or_addsNode assembly with same | adds
  · rw [same]
    exact complete.references
  · exact adds.perm_range complete.references

/-- **Accepted events keep an assembly complete.** -/
theorem Complete.accepts {event : Event} {assembly later : Assembly} (complete : assembly.Complete)
    (accepted : Accepts network tokens event assembly later) : later.Complete := by
  refine ⟨complete.arranged.accepts spacing_eq accepted, complete.numbered.accepts accepted, ?_⟩
  rcases accepted.references_eq_or_addsNode with ⟨size, same⟩ | adds
  · rw [size, same]
    exact complete.references
  · exact adds.perm_range complete.references

/-- A root without children leaves nothing out. -/
theorem complete_rooted (rule : Nat) (name : String) : (rooted rule name).Complete :=
  ⟨arranged_rooted spacing_eq rule name, numbered_rooted rule name, .nil⟩

/-- **A finished tree is complete,** if its assembly was. -/
theorem Complete.finish {assembly : Assembly} (complete : assembly.Complete) :
    (∀ branch, assembly.finish.HasBranch branch → Tiles assembly.finish.nodes branch.span.start
      branch.children.toList branch.span.stop) ∧
    assembly.finish.references.Perm (List.range assembly.finish.size) := by
  obtain ⟨root, below⟩ := complete.arranged.inRow_finish spacing_eq
  have last := exitMany_invariant Complete (fun _ complete => complete.exitInnermost)
    assembly.openBranches.length complete
  refine ⟨?_, ?_⟩
  · rintro branch (rfl | member)
    · exact root
    · exact below branch member
  · rw [references_finish]
    exact last.references

end Assembly

/-- Events begin as many nodes as they consume tokens and enter rules. -/
theorem countP_begins (events : List Event) :
    events.countP Event.begins =
      (consumedIndexes events).length + (enteredRules events).length := by
  induction events with
  | nil => rfl
  | cons event rest ih =>
    rw [List.countP_cons, ih]
    cases event with
    | enter rule => rfl
    | exit rule => rfl
    | consume index => exact Nat.add_right_comm _ _ _

/-- The exits of rules still open begin nothing. -/
theorem countP_begins_completed (events : List Event) :
    (completed events).countP Event.begins = events.countP Event.begins := by
  rw [completed, List.countP_append, Nat.add_eq_left, List.countP_eq_zero]
  intro event member
  obtain ⟨rule, -, rfl⟩ := List.mem_map.1 member
  exact Bool.false_ne_true

/-- Every leaf in front of a position has the token at its index. -/
theorem getElem?_of_mem_leavesUpTo {tokens : Array Token} {position : Nat} {leaf : Leaf}
    (member : leaf ∈ leavesUpTo tokens position) : tokens[leaf.index]? = some leaf.token := by
  obtain ⟨⟨token, index⟩, found, rfl⟩ := List.mem_map.1 member
  rw [List.mem_zipIdx_iff_getElem?, List.getElem?_take] at found
  split at found
  · rwa [Array.getElem?_toList] at found
  · cases found

namespace ParseTree

variable {network : Network} {tokens : Array Token} {startRule : Nat} {events : List Event}
  {tree : ParseTree}

/-- **An assembled tree tiles its input.** The root goes through the tokens consumed. Below every
branch the nodes tile what the branch goes through, with increasing ids. There is a node for every
token consumed and every rule entered, and every id is that of one child, below a branch with a
greater id or the root. A traversal goes through every node once and ends with the leaves, which are
those of the tokens consumed, in order. -/
theorem assemble_tiles (assembled : assemble network tokens startRule events = .ok tree) :
    let count := (consumedIndexes events).length
    tree.root.span = ⟨0, count⟩ ∧
      (∀ branch, tree.HasBranch branch →
        Tiles tree.nodes branch.span.start branch.children.toList branch.span.stop ∧
          branch.children.toList.Pairwise (· < ·)) ∧
      tree.size = count + (enteredRules events).length ∧
      tree.references.Perm (List.range tree.size) ∧
      Node.Descending tree.nodes ∧
      tree.traversal.turns tree.nodes tree.size = ⟨tree.leaves.toArray, []⟩ ∧
      tree.leaves.map Leaf.index = List.range count ∧
      ∀ leaf ∈ tree.leaves, tokens[leaf.index]? = some leaf.token := by
  intro count
  have listing := listing_eq assembled
  obtain ⟨name, last, known, taken, rfl⟩ := assemble_eq_ok_iff.1 assembled
  have complete := Assembly.pushAll_invariant Assembly.Complete
    (fun _ _ _ accepted complete => complete.accepts accepted) taken
    (Assembly.complete_rooted startRule name)
  have reads := (Assembly.reads_start (Assembly.start_eq_ok_iff.2 ⟨name, known, rfl⟩)
    tokens).pushAll taken
  have cursor : last.cursor = count :=
    (Assembly.cursor_of_pushAll taken).trans (Nat.zero_add _)
  have size : last.finish.size = count + (enteredRules events).length := by
    rw [Assembly.size_finish, Assembly.begun_of_pushAll taken, ← countP_begins]
    exact Nat.zero_add _
  obtain ⟨-, span, leaves⟩ := reads_finish reads
  obtain ⟨tiles, references⟩ := complete.finish
  obtain ⟨descending, inUse, increasing⟩ := complete.numbered.finish
  have ends := turns_traversal descending inUse
  rw [listing, countP_begins_completed, countP_begins, ← size] at ends
  rw [← cursor] at size ⊢
  refine ⟨span, fun branch here => ⟨tiles branch here, increasing branch here⟩, size, references,
    descending, ends, ?_, ?_⟩
  · rw [leaves, map_index_leavesUpTo reads.inside]
  · rw [leaves]
    exact fun leaf member => getElem?_of_mem_leavesUpTo member

/-- The tree of two sevens in the sample, the second below a rule that is entered twice and left
open, tiles them with an empty branch at the end. -/
theorem assemble_tiles_doubling :
    ∃ tree, assemble doubling #[7, 7]
        0 [.enter 0, .consume 0, .exit 0, .enter 0, .consume 1, .enter 0] = .ok tree ∧
      tree.root.span = ⟨0, 2⟩ ∧ tree.size = 5 ∧ tree.references.Perm (List.range tree.size) ∧
      Tiles tree.nodes 0 tree.root.children.toList 2 ∧
      tree.traversal.turns tree.nodes tree.size = ⟨tree.leaves.toArray, []⟩ ∧
      tree.leaves.map Leaf.index = [0, 1] := by
  have assembled : assemble doubling #[7, 7]
      0 [.enter 0, .consume 0, .exit 0, .enter 0, .consume 1, .enter 0] =
        .ok ⟨⟨0, "S", ⟨0, 2⟩, #[1, 4]⟩, #[.leaf ⟨0, 7⟩, .branch ⟨0, "S", ⟨0, 1⟩, #[0]⟩,
          .leaf ⟨1, 7⟩, .branch ⟨0, "S", ⟨2, 2⟩, #[]⟩, .branch ⟨0, "S", ⟨1, 2⟩, #[2, 3]⟩]⟩ := by
    decide +kernel
  obtain ⟨span, tiles, size, references, -, ends, leaves, -⟩ := assemble_tiles assembled
  exact ⟨_, assembled, span, size, references, (tiles _ (Or.inl rfl)).1, ends, leaves⟩

end ParseTree

end TransitionNetworks
