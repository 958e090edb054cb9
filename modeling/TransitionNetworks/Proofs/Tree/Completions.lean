import TransitionNetworks.Proofs.Derivation.Spelling
import TransitionNetworks.Proofs.Tree.Derivations

/-! # The stops that complete branches

Every branch of a tree that a run derives is completed by a stop (`Findings.Completes`): an item
found where the branch ends, on a node of its rule, in a state in which the rule stops. The stops
are in the order of discovery (`Findings.Ordered`): that of a branch was found later than those of
all branches below, because what is told by the provenance of an item was found earlier. -/

namespace TransitionNetworks

namespace Findings

/-- **Completion.** A branch is completed by an item found where the branch ends, which began where
the branch begins, stands on a node of its rule, and is in a state in which the rule stops. -/
structure Completes (network : Network) (findings : Findings) (stop : Place) (branch : Branch) :
    Prop where
  /-- The item is found. -/
  found : findings.Has stop.position stop.item
  /-- The branch goes from where the item began to where it was found. -/
  span : branch.span = ⟨stop.item.origin, stop.position⟩
  /-- The item stands on a node of the rule. -/
  called : ∃ frame, findings.stackGraph.frame? stop.item.stack = some frame ∧
    frame.rule = branch.rule
  /-- The rule stops in the state of the item. -/
  stops : network.StopsIn branch.rule stop.item.state

/-- **Branches in the order of discovery.** A branch is completed in front of a bound in the order
of discovery, and the branches directly below it in front of the stop that completes it. -/
inductive Ordered (network : Network) (findings : Findings) (nodes : Array Node) :
    Nat → Branch → Prop
  /-- A stop in front of the bound. -/
  | completed {bound : Nat} {branch : Branch} {stop : Place}
      (completes : findings.Completes network stop branch) (earlier : findings.rank stop < bound)
      (below : ∀ id ∈ branch.children, ∀ child, nodes[id]? = some (.branch child) →
        Ordered network findings nodes (findings.rank stop) child) :
      Ordered network findings nodes bound branch

variable {network : Network} {start : Nat} {input : List Token} {findings : Findings}

/-- What is completed in front of a bound is so in front of a later one. -/
theorem Ordered.mono {nodes : Array Node} {bound later : Nat} {branch : Branch}
    (ordered : findings.Ordered network nodes bound branch) (le : bound ≤ later) :
    findings.Ordered network nodes later branch := by
  cases ordered with
  | completed completes earlier below =>
    exact .completed completes (Nat.lt_of_lt_of_le earlier le) below

/-- The nodes between those in front and those attached later. -/
theorem mem_new_of_getElem? {α : Type} {front new last : Array α} {n : Nat} {x : α}
    (kept : (front ++ new).toList <+: last.toList) (behind : front.size ≤ n)
    (before : n < (front ++ new).size) (here : last[n]? = some x) : x ∈ new := by
  obtain ⟨rest, same⟩ := kept
  rw [← Array.getElem?_toList, ← same, List.getElem?_append_left (by simpa using before),
    Array.getElem?_toList, Array.getElem?_append_right behind] at here
  exact Array.mem_of_getElem? here

/-- An id added behind those in a range extends the range. -/
theorem range_push {ids : Array Nat} {first last size : Nat}
    (range : ∀ id ∈ ids, first ≤ id ∧ id < last) (before : first ≤ size) (behind : last ≤ size) :
    ∀ id ∈ ids.push size, first ≤ id ∧ id < size + 1 := by
  intro id member
  rcases Array.mem_push.1 member with old | rfl
  · obtain ⟨low, high⟩ := range id old
    omega
  · omega

/-- **What unwinds has a tree in the order of discovery.** Its events are taken as a growth, whose
children are among the new nodes, and whose branches are completed in front of the place, whatever
nodes are attached later. -/
theorem Linked.pushAll_of_unwinds (linked : findings.Linked network start input)
    {place base : Place} {forest : Forest}
    (unwinds : Unwinds findings.provenance place forest base) (assembly : Assembly)
    (here : assembly.cursor = base.position) :
    ∃ new ids,
      assembly.pushAll network input.toArray forest.events =
        .ok (assembly.grow new ids place.position) ∧
      (∀ id ∈ ids, assembly.nodes.size ≤ id ∧ id < (assembly.nodes ++ new).size) ∧
      ∀ last, (assembly.nodes ++ new).toList <+: last.toList → ∀ branch, .branch branch ∈ new →
        findings.Ordered network last (findings.rank place) branch := by
  have ranked := linked.ranked
  induction unwinds generalizing assembly with
  | seed | predict =>
    refine ⟨#[], #[], ?_, fun _ member => absurd member (Array.not_mem_empty _),
      fun _ _ _ member => absurd member (Array.not_mem_empty _)⟩
    rw [← here, Assembly.grow_nothing]
    rfl
  | epsilon find back ih =>
    obtain ⟨new, ids, taken, range, ordered⟩ := ih assembly here
    have earlier := ranked _ _ find _ (List.mem_cons_self ..)
    refine ⟨new, ids, taken, range, ?_⟩
    intro last kept branch member
    exact (ordered last kept branch member).mono (Nat.le_of_lt earlier)
  | @scan position index item prev forest base find back ih =>
    obtain ⟨new, ids, taken, range, ordered⟩ := ih assembly here
    have earlier := ranked _ _ find _ (List.mem_cons_self ..)
    cases linked.legal_of_find? find with
    | @scan _ _ _ matcher token offers read accepts =>
      have next : input.toArray[position]? = some token := by rwa [List.getElem?_toArray]
      refine ⟨_, _, Assembly.pushAll_append_consume taken next, ?_, ?_⟩
      · rw [Array.append_push, Array.size_push]
        exact range_push range (by simp) (Nat.le_refl _)
      · -- the leaf of the token is no branch
        intro last kept branch member
        have front : (assembly.nodes ++ new).toList <+: last.toList :=
          List.IsPrefix.trans (by simp) kept
        rcases Array.mem_push.1 member with old | isLast
        · exact (ordered last front branch old).mono (Nat.le_of_lt earlier)
        · cases isLast
  | @complete position entered exited item stop caller prev before inside entry base find through
      enters back ihThrough ihBack =>
    obtain ⟨frame, called, frame?, rfl, rfl, known, stops, -, -, rfl⟩ :=
      linked.call_of_unwinds find through enters
    have earlierStop := ranked _ _ find _ (List.mem_cons_self ..)
    have earlier := ranked _ _ find _ (List.mem_cons_of_mem _ (List.mem_cons_self ..))
    -- the tree in front of the call, and the tree inside once the rule is entered
    obtain ⟨new, ids, taken, range, ordered⟩ := ihBack assembly here
    obtain ⟨more, others, takenInside, rangeInside, orderedInside⟩ :=
      ihThrough ((assembly.grow new ids stop.origin).opened frame.rule called.name)
        (by simp [Assembly.opened])
    have nodes : ((assembly.grow new ids stop.origin).opened frame.rule called.name).nodes =
        assembly.nodes ++ new := by simp [Assembly.opened]
    rw [nodes] at rangeInside orderedInside
    refine ⟨_, _, Assembly.pushAll_append_call taken (network.ruleName?_of_rule? known) takenInside,
      ?_, ?_⟩
    · rw [Array.append_push, Array.size_push]
      exact range_push range (by simp) (by simp)
    · intro last kept branch member
      have through : (assembly.nodes ++ new ++ more).toList <+: last.toList :=
        List.IsPrefix.trans (by simp) kept
      have front : (assembly.nodes ++ new).toList <+: last.toList :=
        List.IsPrefix.trans (by simp) through
      -- a branch was attached in front of the call, or inside it, or is that of the rule itself
      rcases Array.mem_push.1 member with old | isLast
      · rcases Array.mem_append.1 old with first | second
        · exact (ordered last front branch first).mono (Nat.le_of_lt earlier)
        · exact (orderedInside last through branch second).mono (Nat.le_of_lt earlierStop)
      · cases isLast
        -- the stop completes the branch, and what is inside was found before it
        have found : findings.Has position stop := linked.has_source
          ((linked.coherent.find?_eq_some_iff _ _).1 find) (List.mem_cons_self ..)
        have completes : findings.Completes network ⟨position, stop⟩
            ⟨frame.rule, called.name, ⟨stop.origin, position⟩, others⟩ :=
          ⟨found, rfl, ⟨frame, frame?, rfl⟩, stops⟩
        refine .completed completes earlierStop ?_
        intro id isChild child there
        obtain ⟨low, high⟩ := rangeInside id isChild
        exact orderedInside last through child (mem_new_of_getElem? through low high there)

end Findings

end TransitionNetworks
