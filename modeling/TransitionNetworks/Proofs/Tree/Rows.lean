import TransitionNetworks.Proofs.Tree.Leaves

/-! # Nodes in a row

Consecutive nodes go through consecutive parts of the input. `InRow` says so of the nodes with some
ids, with a parameter for how far apart they may be: without gaps they tile what they go through
(`Tiles`), and with gaps they are at least in order and inside it (`Spaced`).

An assembly is arranged (`Assembly.Arranged`) if below every open rule, the root included, the nodes
stand in a row from where the rule was entered to where the next one inside was, or to the cursor,
and below every branch from its beginning to its end. Attaching a node keeps this up
(`Assembly.Arranged.attach`), and so do the events accepted (`Assembly.Arranged.accepts`). So in a
finished tree the children of every branch stand in a row (`Assembly.Arranged.inRow_finish`). -/

namespace TransitionNetworks

/-- What a node goes through: the token of a leaf, or what the rule of a branch did. -/
def Node.span : Node → Span
  | leaf tip => ⟨tip.index, tip.index + 1⟩
  | branch top => top.span

/-- **Nodes in a row** from one position to another. Each begins as far behind the one in front of
it as `apart` allows, and does not go backwards. -/
inductive InRow (apart : Nat → Nat → Prop) (nodes : Array Node) : Nat → List Nat → Nat → Prop
  /-- No nodes, with the two positions apart. -/
  | nil {start stop : Nat} (gap : apart start stop) : InRow apart nodes start [] stop
  /-- A node, with others in a row behind it. -/
  | cons {start stop id : Nat} {node : Node} {ids : List Nat} (here : nodes[id]? = some node)
      (gap : apart start node.span.start) (forwards : node.span.start ≤ node.span.stop)
      (rest : InRow apart nodes node.span.stop ids stop) :
      InRow apart nodes start (id :: ids) stop

/-- **Nodes that tile** what is between two positions: without gaps and without overlap. -/
abbrev Tiles : Array Node → Nat → List Nat → Nat → Prop := InRow (· = ·)

/-- **Nodes that are spaced** between two positions: in order, inside, and without overlap. -/
abbrev Spaced : Array Node → Nat → List Nat → Nat → Prop := InRow (· ≤ ·)

/-- What a row allows between two nodes: nothing at least, and not to go backwards. -/
structure Spacing (apart : Nat → Nat → Prop) : Prop where
  /-- The next node may begin where the one in front of it ends. -/
  refl : ∀ position, apart position position
  /-- The next node does not begin earlier. -/
  le : ∀ {first second}, apart first second → first ≤ second

/-- A row without gaps is one way to space nodes. -/
theorem spacing_eq : Spacing (· = ·) := ⟨fun _ => rfl, Nat.le_of_eq⟩

/-- A row with any gaps is another. -/
theorem spacing_le : Spacing (· ≤ ·) := ⟨Nat.le_refl, id⟩

namespace InRow

variable {apart : Nat → Nat → Prop} {nodes : Array Node} {start stop : Nat} {ids : List Nat}

/-- Nodes in a row stay in it when another node is attached. -/
theorem push (row : InRow apart nodes start ids stop) (last : Node) :
    InRow apart (nodes.push last) start ids stop := by
  induction row with
  | nil gap => exact .nil gap
  | cons here gap forwards _ ih =>
    obtain ⟨bound, same⟩ := Array.getElem?_eq_some_iff.1 here
    refine .cons ?_ gap forwards ih
    rw [Array.getElem?_push_lt bound, same]

/-- A row does not go backwards. -/
theorem le (spacing : Spacing apart) (row : InRow apart nodes start ids stop) : start ≤ stop := by
  induction row with
  | nil gap => exact spacing.le gap
  | cons _ gap forwards _ ih => exact Nat.le_trans (spacing.le gap) (Nat.le_trans forwards ih)

/-- A node that begins where a row ends is one more in the row. -/
theorem concat (spacing : Spacing apart) {id : Nat} {node : Node}
    (row : InRow apart nodes start ids node.span.start) (here : nodes[id]? = some node)
    (forwards : node.span.start ≤ node.span.stop) :
    InRow apart nodes start (ids ++ [id]) node.span.stop := by
  generalize behind : node.span.start = last at row
  induction row with
  | nil gap => exact .cons here (behind ▸ gap) forwards (.nil (spacing.refl _))
  | cons there gap forwards' _ ih => exact .cons there gap forwards' (ih behind)

/-- Spaced nodes may have more room behind them. -/
theorem widen (row : Spaced nodes start ids stop) {later : Nat} (behind : stop ≤ later) :
    Spaced nodes start ids later := by
  induction row with
  | nil gap => exact .nil (Nat.le_trans gap behind)
  | cons here gap forwards _ ih => exact .cons here gap forwards (ih behind)

end InRow

/-- **Open rules in a row,** the innermost first: below each the nodes are in a row up to where the
next one inside was entered, or to the cursor. The outermost was entered at the first position. -/
def OpenInRow (apart : Nat → Nat → Prop) (nodes : Array Node) : List OpenBranch → Nat → Prop
  | [], stop => stop = 0
  | branch :: outer, stop =>
    InRow apart nodes branch.start branch.children.toList stop ∧
      OpenInRow apart nodes outer branch.start

/-- Open rules stay in a row when another node is attached. -/
theorem OpenInRow.push {apart : Nat → Nat → Prop} {nodes : Array Node}
    {branches : List OpenBranch} {stop : Nat} (rows : OpenInRow apart nodes branches stop)
    (last : Node) : OpenInRow apart (nodes.push last) branches stop := by
  induction branches generalizing stop with
  | nil => exact rows
  | cons branch outer ih => exact ⟨rows.1.push last, ih rows.2⟩

namespace Assembly

/-- All open rules, the innermost first and the root last. -/
def branches (assembly : Assembly) : List OpenBranch := assembly.openBranches ++ [assembly.root]

/-- **Arranged assemblies.** The nodes below open rules and branches stand in rows. -/
structure Arranged (apart : Nat → Nat → Prop) (assembly : Assembly) : Prop where
  /-- Below open rules the rows go up to the cursor. -/
  opened : OpenInRow apart assembly.nodes assembly.branches assembly.cursor
  /-- Below a branch the row goes from its beginning to its end. -/
  closed : ∀ branch, .branch branch ∈ assembly.nodes →
    InRow apart assembly.nodes branch.span.start branch.children.toList branch.span.stop

variable {apart : Nat → Nat → Prop} {network : Network} {tokens : Array Token}

/-- A node is attached below the innermost of all open rules. -/
theorem branches_attach (node : Node) (assembly : Assembly) :
    ∃ innermost outer, assembly.branches = innermost :: outer ∧
      (assembly.attach node).branches = innermost.addChild assembly.nodes.size :: outer := by
  obtain ⟨cursor, nodes, root, openBranches⟩ := assembly
  cases openBranches with
  | nil => exact ⟨root, [], rfl, rfl⟩
  | cons innermost outer => exact ⟨innermost, outer ++ [root], rfl, rfl⟩

/-- **Attaching a node** where it begins keeps the nodes in rows, up to where it ends. -/
theorem arranged_attach (spacing : Spacing apart) (assembly : Assembly) (node : Node)
    (opened : OpenInRow apart assembly.nodes assembly.branches node.span.start)
    (closed : ∀ branch, .branch branch ∈ assembly.nodes.push node →
      InRow apart assembly.nodes branch.span.start branch.children.toList branch.span.stop)
    (forwards : node.span.start ≤ node.span.stop) :
    OpenInRow apart (assembly.attach node).nodes (assembly.attach node).branches node.span.stop ∧
      ∀ branch, .branch branch ∈ (assembly.attach node).nodes →
        InRow apart (assembly.attach node).nodes branch.span.start branch.children.toList
          branch.span.stop := by
  obtain ⟨innermost, outer, before, after⟩ := branches_attach node assembly
  rw [before] at opened
  rw [nodes_attach, after]
  refine ⟨⟨?_, opened.2.push node⟩, fun branch member => (closed branch member).push node⟩
  have row := (opened.1.push node).concat spacing Array.getElem?_push_size forwards
  simpa [OpenBranch.addChild] using row

/-- Exiting a rule keeps an assembly arranged. -/
theorem Arranged.exitInnermost (spacing : Spacing apart) {assembly : Assembly}
    (arranged : assembly.Arranged apart) : assembly.exitInnermost.Arranged apart := by
  obtain ⟨cursor, nodes, root, openBranches⟩ := assembly
  cases openBranches with
  | nil => exact arranged
  | cons innermost outer =>
    -- the branch attached begins where its rule was entered, and the rows around it end there
    obtain ⟨inside, around⟩ := arranged.opened
    have closed : ∀ branch, .branch branch ∈ nodes.push (.branch (innermost.close cursor)) →
        InRow apart nodes branch.span.start branch.children.toList branch.span.stop := by
      intro branch member
      rcases Array.mem_push.1 member with old | new
      · exact arranged.closed branch old
      · cases new
        exact inside
    obtain ⟨opened, closed⟩ := arranged_attach spacing ⟨cursor, nodes, root, outer⟩
      (.branch (innermost.close cursor)) around closed (inside.le spacing)
    refine ⟨?_, closed⟩
    rw [cursor_exitInnermost]
    exact opened

/-- Accepted events keep an assembly arranged. -/
theorem Arranged.accepts (spacing : Spacing apart) {event : Event} {assembly later : Assembly}
    (arranged : assembly.Arranged apart) (accepted : Accepts network tokens event assembly later) :
    later.Arranged apart := by
  cases accepted with
  | enter known =>
    -- the rule entered has nothing below it yet
    exact ⟨⟨.nil (spacing.refl _), arranged.opened⟩, arranged.closed⟩
  | exit isOpen => exact arranged.exitInnermost spacing
  | @consume _ token read =>
    have closed : ∀ branch, .branch branch ∈
        assembly.nodes.push (.leaf ⟨assembly.cursor, token⟩) →
        InRow apart assembly.nodes branch.span.start branch.children.toList branch.span.stop := by
      intro branch member
      rcases Array.mem_push.1 member with old | new
      · exact arranged.closed branch old
      · cases new
    obtain ⟨opened, closed⟩ := arranged_attach spacing assembly (.leaf ⟨assembly.cursor, token⟩)
      arranged.opened closed (Nat.le_succ _)
    exact ⟨opened, closed⟩

/-- Without the innermost open rule an assembly with room between nodes stays arranged: the row
around the rule goes on to the cursor. -/
theorem Arranged.outer {cursor : Nat} {nodes : Array Node} {root innermost : OpenBranch}
    {outer : List OpenBranch}
    (arranged : (Assembly.mk cursor nodes root (innermost :: outer)).Arranged (· ≤ ·)) :
    (Assembly.mk cursor nodes root outer).Arranged (· ≤ ·) := by
  obtain ⟨⟨inside, around⟩, closed⟩ := arranged
  refine ⟨?_, closed⟩
  obtain ⟨next, others, shape⟩ := List.exists_cons_of_ne_nil
    (List.append_ne_nil_of_right_ne_nil outer (List.cons_ne_nil root []))
  change OpenInRow _ nodes (outer ++ [root]) innermost.start at around
  change OpenInRow _ nodes (outer ++ [root]) cursor
  rw [shape] at around ⊢
  exact ⟨around.1.widen (inside.le spacing_le), around.2⟩

/-- A root without children is arranged. -/
theorem arranged_rooted (spacing : Spacing apart) (rule : Nat) (name : String) :
    (rooted rule name).Arranged apart :=
  ⟨⟨.nil (spacing.refl 0), rfl⟩, fun _ member => absurd member (Array.not_mem_empty _)⟩

/-- **In a finished tree the children of every branch stand in a row** from its beginning to its
end. -/
theorem Arranged.inRow_finish (spacing : Spacing apart) {assembly : Assembly}
    (arranged : assembly.Arranged apart) :
    InRow apart assembly.finish.nodes assembly.finish.root.span.start
      assembly.finish.root.children.toList assembly.finish.root.span.stop ∧
    ∀ branch, .branch branch ∈ assembly.finish.nodes →
      InRow apart assembly.finish.nodes branch.span.start branch.children.toList
        branch.span.stop := by
  have last := exitMany_invariant (·.Arranged apart)
    (fun _ arranged => arranged.exitInnermost spacing) assembly.openBranches.length arranged
  have opened := last.opened
  -- only the root is left open
  rw [branches, openBranches_exitMany] at opened
  exact ⟨opened.1, last.closed⟩

end Assembly

end TransitionNetworks
