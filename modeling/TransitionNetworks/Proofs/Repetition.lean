import TransitionNetworks.Proofs.Grammar.CallSites
import TransitionNetworks.Proofs.Parsing
import TransitionNetworks.Proofs.Tree.Completions
import Mathlib.Data.List.Chain

/-! # No call goes round in itself

The rules of a grammar may go round in a circle, but the tree of a run does not follow them for
ever. Branches below each other are completed by stops that were found one before the other
(`Findings.exists_stops`). If they have one rule and one span, then the stops differ in
their nodes, which are nodes of different call sites (`Findings.Linked.eq_of_siteOf_eq`). So there
are not more such branches than call sites of the rule, apart from the root
(`Network.length_descending_le`), which in a grammar are the call steps that name the rule
(`Grammar.repetition_bounded`). -/

namespace TransitionNetworks

namespace ParseTree

/-- A branch stands directly below another one. -/
def HasChild (tree : ParseTree) (parent child : Branch) : Prop :=
  ∃ id ∈ parent.children, tree.node? id = some (.branch child)

/-- **Strict descendants.** A branch stands below another one, directly or further down. -/
def HasDescendant (tree : ParseTree) : Branch → Branch → Prop := Relation.TransGen tree.HasChild

/-- Strict descendants are nodes of the tree. -/
theorem HasDescendant.mem {tree : ParseTree} {branch lower : Branch}
    (descends : tree.HasDescendant branch lower) : .branch lower ∈ tree.nodes := by
  obtain ⟨parent, -, id, -, here⟩ := Relation.TransGen.tail'_iff.1 descends
  exact Array.mem_of_getElem? here

end ParseTree

namespace Findings

variable {network : Network} {start : Nat} {input : List Token} {findings : Findings}

/-- The call site of the node of an item. -/
def siteOf (findings : Findings) (place : Place) : Option (Nat × Nat) :=
  (findings.stackGraph.frame? place.item.stack).map fun frame => (frame.follow, frame.rule)

/-- A branch is completed in front of a bound, and all branches below it in front of its stop. -/
theorem Ordered.exists_completes {tree : ParseTree} {bound : Nat} {branch : Branch}
    (ordered : findings.Ordered network tree.nodes bound branch) :
    ∃ stop, findings.Completes network stop branch ∧ findings.rank stop < bound ∧
      ∀ lower, tree.HasDescendant branch lower →
        findings.Ordered network tree.nodes (findings.rank stop) lower := by
  cases ordered with
  | @completed _ _ stop completes earlier below =>
    refine ⟨stop, completes, earlier, ?_⟩
    intro lower descends
    induction descends with
    | single child =>
      obtain ⟨id, isChild, here⟩ := child
      exact below id isChild _ here
    | tail _ child ih =>
      obtain ⟨id, isChild, here⟩ := child
      cases ih with
      | completed _ earlier below => exact (below id isChild _ here).mono (Nat.le_of_lt earlier)

/-- **Branches below each other are completed one before the other.** -/
theorem exists_stops {tree : ParseTree} {bound : Nat} {chain : List Branch}
    (descends : chain.IsChain tree.HasDescendant)
    (ordered : ∀ top ∈ chain.head?, findings.Ordered network tree.nodes bound top) :
    ∃ stops : List Place, List.Forall₂ (findings.Completes network) stops chain ∧
      stops.Pairwise (fun stop lower => findings.rank lower < findings.rank stop) ∧
      ∀ stop ∈ stops, findings.rank stop < bound := by
  induction chain generalizing bound with
  | nil => exact ⟨[], .nil, .nil, fun _ member => absurd member List.not_mem_nil⟩
  | cons top rest ih =>
    obtain ⟨stop, completes, earlier, below⟩ := (ordered top rfl).exists_completes
    rw [List.isChain_cons] at descends
    obtain ⟨stops, all, pairwise, before⟩ :=
      ih descends.2 fun next isNext => below next (descends.1 next isNext)
    refine ⟨stop :: stops, .cons completes all, .cons before pairwise, ?_⟩
    intro other member
    rcases List.mem_cons.1 member with rfl | member
    · exact earlier
    · exact Nat.lt_trans (before other member) earlier

/-- **Stops of one rule and one span on nodes of one call site are the same,** if the rule stops in
one state only. -/
theorem Linked.eq_of_siteOf_eq (linked : findings.Linked network start input) {stop other : Place}
    {branch another : Branch} (completes : findings.Completes network stop branch)
    (completes' : findings.Completes network other another) (sameRule : another.rule = branch.rule)
    (sameSpan : another.span = branch.span)
    (single : ∀ state state', network.StopsIn branch.rule state →
      network.StopsIn branch.rule state' → state = state')
    (sameSite : findings.siteOf stop = findings.siteOf other) : stop = other := by
  obtain ⟨frame, here, rule⟩ := completes.called
  obtain ⟨frame', there, rule'⟩ := completes'.called
  have span := completes.span
  rw [← sameSpan, completes'.span, Span.mk.injEq] at span
  -- the calls began at one position, where both stops began
  have position : frame.position = frame'.position := by
    rw [← (linked.began completes.found here).1, ← (linked.began completes'.found there).1, span.1]
  have sameFrame : frame = frame' := by
    simp only [siteOf, here, there, Option.map_some, Option.some.injEq, Prod.mk.injEq] at sameSite
    obtain ⟨_, _, _⟩ := frame
    obtain ⟨_, _, _⟩ := frame'
    simp only [Frame.mk.injEq]
    exact ⟨sameSite.1, sameSite.2, position⟩
  subst sameFrame
  have stack := StackGraph.frame?_inj here there
  have state := single _ _ completes.stops (sameRule ▸ completes'.stops)
  have item := linked.eq_of_has completes.found completes'.found state stack
  obtain ⟨position, item⟩ := stop
  obtain ⟨position', item'⟩ := other
  simp only [Place.mk.injEq]
  exact ⟨span.2.symm, item⟩

/-- **Branches of one rule and one span below each other** are not more than the rule has call
sites, if it stops in one state only. -/
theorem Linked.length_le_callSitesOf (linked : findings.Linked network start input)
    {tree : ParseTree} {bound rule : Nat} {span : Span} {chain : List Branch}
    (single : ∀ state state', network.StopsIn rule state → network.StopsIn rule state' →
      state = state')
    (descends : chain.IsChain tree.HasDescendant)
    (ordered : ∀ top ∈ chain.head?, findings.Ordered network tree.nodes bound top)
    (same : ∀ branch ∈ chain, branch.rule = rule ∧ branch.span = span) :
    chain.length ≤ (network.callSitesOf rule).length := by
  obtain ⟨stops, all, earlier, -⟩ := exists_stops descends ordered
  -- different stops have different call sites
  have distinct : (stops.map findings.siteOf).Nodup := by
    refine List.Nodup.map_on ?_ (earlier.imp fun before equal => ?_)
    · intro stop member other member' sameSite
      obtain ⟨branch, inChain, completes⟩ := exists_mem_of_forall₂ all member
      obtain ⟨another, inChain', completes'⟩ := exists_mem_of_forall₂ all member'
      obtain ⟨rfl, rfl⟩ := same branch inChain
      obtain ⟨sameRule, sameSpan⟩ := same another inChain'
      exact linked.eq_of_siteOf_eq completes completes' sameRule sameSpan single sameSite
    · rw [equal] at before
      exact Nat.lt_irrefl _ before
  -- and these are call sites of the rule
  have sites : stops.map findings.siteOf ⊆ (network.callSitesOf rule).map some := by
    intro site member
    obtain ⟨stop, isStop, rfl⟩ := List.mem_map.1 member
    obtain ⟨branch, inChain, completes⟩ := exists_mem_of_forall₂ all isStop
    obtain ⟨frame, here, called⟩ := completes.called
    obtain ⟨caller, -, -, entry, offers⟩ := linked.exists_caller here
    rw [siteOf, here]
    refine List.mem_map_of_mem (List.mem_filter.2 ⟨offers.mem_callSites, ?_⟩)
    simpa using called.trans (same branch inChain).1
  have length := (List.subperm_of_subset distinct sites).length_le
  rwa [List.length_map, List.length_map, all.length_eq] at length

end Findings

namespace Network

/-- **The tree of tokens that are accepted** comes from linked findings, and each branch of it is
completed in the order of discovery. -/
theorem exists_ordered_tree {network : Network} {startRule : Nat} {tokens : List Token}
    (accepted : network.recognize startRule tokens = .ok true) :
    ∃ tree start input findings bound, network.parse startRule tokens = .ok (some tree) ∧
      Findings.Linked network start input findings ∧
      ∀ branch, .branch branch ∈ tree.nodes →
        findings.Ordered network tree.nodes bound branch := by
  cases ran : network.recognition startRule tokens with
  | error fault =>
    rw [recognize, ran] at accepted
    cases accepted
  | ok recognition =>
    rw [recognize_of_recognition ran, Except.ok.injEq, Recognition.isAccepted,
      Option.isSome_iff_exists] at accepted
    obtain ⟨⟨position, item⟩, accepting⟩ := accepted
    obtain ⟨rule, known, rfl⟩ := exists_rule?_of_recognition ran
    obtain ⟨events, tree, derived, isTree, -⟩ := exists_tree known accepting
    obtain ⟨walked, assembled⟩ := Recognition.eq_ok_of_tree_eq_ok accepting derived isTree
    obtain ⟨name, last, -, taken, rfl⟩ := ParseTree.assemble_eq_ok_iff.1 assembled
    -- the derivation is the one that unwinds to the seed, whose events are taken as a growth
    obtain ⟨finished, found⟩ := network.finished_recognitionFrom known tokens
    rw [accepting] at found
    obtain ⟨rfl, -, has⟩ := Findings.acceptance?_eq_some found.symm
    obtain ⟨forest, unwinds, derivation, -⟩ := finished.linked.derivation has
    have same := derivation.symm.trans walked
    cases same
    obtain ⟨new, ids, grown, -, ordered⟩ :=
      finished.linked.pushAll_of_unwinds unwinds (Assembly.rooted startRule name) rfl
    have same := grown.symm.trans taken
    cases same
    have parsed : network.parse startRule tokens =
        (network.recognitionFrom startRule rule tokens).tree := by rw [parse, ran]
    rw [Assembly.finish_grow_rooted] at isTree
    exact ⟨_, _, _, _, _, parsed.trans isTree, finished.linked,
      ordered new (by simp [Assembly.rooted])⟩

/-- **In a tree the branches of one rule and one span below each other** are not more than one and
the call sites of the rule, if every rule stops in one state only. The first of them may be the
root, which is no node of a call. -/
theorem length_descending_le {network : Network} {startRule : Nat} {tokens : List Token}
    (single : ∀ rule state state', network.StopsIn rule state → network.StopsIn rule state' →
      state = state')
    (accepted : network.recognize startRule tokens = .ok true) :
    ∃ tree, network.parse startRule tokens = .ok (some tree) ∧
      ∀ rule span (chain : List Branch), chain.IsChain tree.HasDescendant →
        (∀ branch ∈ chain, branch.rule = rule ∧ branch.span = span) →
          chain.length ≤ 1 + (network.callSitesOf rule).length := by
  obtain ⟨tree, start, input, findings, bound, parsed, linked, ordered⟩ :=
    exists_ordered_tree accepted
  refine ⟨tree, parsed, ?_⟩
  intro rule span chain descends same
  cases chain with
  | nil => exact Nat.zero_le _
  | cons top rest =>
    -- what is below the first branch is a node of the tree
    obtain ⟨below, descends⟩ := List.isChain_cons.1 descends
    have length := linked.length_le_callSitesOf (single rule) descends
      (fun next isNext => ordered next (below next isNext).mem)
      (fun branch member => same branch (List.mem_cons_of_mem _ member))
    rw [List.length_cons]
    omega

end Network

namespace Grammar

/-- **No call of a rule goes round in itself.** If a grammar has a network and the network accepts
tokens from a start rule, then parsing gives a tree, in which branches of one rule and one span that
are strict descendants of each other are not more than one and the call steps of the grammar that
name the rule. -/
theorem repetition_bounded {grammar : Grammar} {network : Network}
    (built : grammar.toNetwork = .ok network) {startRule : Nat} {tokens : List Token}
    (accepted : network.recognize startRule tokens = .ok true) :
    ∃ tree, network.parse startRule tokens = .ok (some tree) ∧
      ∀ rule span (chain : List Branch), chain.IsChain tree.HasDescendant →
        (∀ branch ∈ chain, branch.rule = rule ∧ branch.span = span) →
          chain.length ≤ 1 + grammar.callsTo rule := by
  obtain ⟨productions, resolved, laidOut⟩ := exists_layout built
  have single : ∀ rule state state', network.StopsIn rule state → network.StopsIn rule state' →
      state = state' := by
    rintro rule state state' ⟨here, found, stop⟩ ⟨there, found', stop'⟩
    rw [laidOut.stops _ _ _ found stop, laidOut.stops _ _ _ found' stop']
  obtain ⟨tree, parsed, bounded⟩ := Network.length_descending_le single accepted
  refine ⟨tree, parsed, ?_⟩
  intro rule span chain descends same
  have sites := bounded rule span chain descends same
  have calls := length_callSitesOf_le built rule
  omega

/-- A rule that goes through another one twice, which goes through itself or, in more steps, through
nothing. -/
def circular : Grammar where
  productions :=
    [⟨"S", [[.call "R", .call "R"]]⟩,
     ⟨"R", [[.call "R"], [.epsilon .plain, .epsilon .plain, .epsilon .plain]]⟩]

/-- The tree of no tokens in this grammar: the second call of the rule goes through it once more. -/
def circularTree : ParseTree where
  root := ⟨0, "S", ⟨0, 0⟩, #[0, 2]⟩
  nodes :=
    #[.branch ⟨1, "R", ⟨0, 0⟩, #[]⟩, .branch ⟨1, "R", ⟨0, 0⟩, #[]⟩, .branch ⟨1, "R", ⟨0, 0⟩, #[1]⟩]

/-- Two branches of the tree stand below each other and have one rule and one span, where there may
be four at most. -/
theorem repetition_bounded_circular :
    ∃ network, circular.toNetwork = .ok network ∧
      network.parse 0 [] = .ok (some circularTree) ∧
      circularTree.HasDescendant ⟨1, "R", ⟨0, 0⟩, #[1]⟩ ⟨1, "R", ⟨0, 0⟩, #[]⟩ ∧
      2 ≤ 1 + circular.callsTo 1 ∧ circular.callsTo 1 = 3 := by
  have runs : circular.toNetwork.toOption.map (fun network =>
      (network.recognize 0 [], network.parse 0 [])) =
        some (.ok true, .ok (some circularTree)) := by decide +kernel
  cases built : circular.toNetwork with
  | error fault =>
    rw [built] at runs
    cases runs
  | ok network =>
    rw [built] at runs
    obtain ⟨accepted, parsed⟩ := Prod.mk.inj (Option.some.inj runs)
    obtain ⟨tree, parsed', bounded⟩ := repetition_bounded built accepted
    have same := parsed.symm.trans parsed'
    cases same
    have descends : circularTree.HasDescendant ⟨1, "R", ⟨0, 0⟩, #[1]⟩ ⟨1, "R", ⟨0, 0⟩, #[]⟩ :=
      .single ⟨1, Array.mem_singleton.2 rfl, rfl⟩
    have length := bounded 1 ⟨0, 0⟩ [⟨1, "R", ⟨0, 0⟩, #[1]⟩, ⟨1, "R", ⟨0, 0⟩, #[]⟩]
      (.cons_cons descends (.singleton _)) (by simp)
    exact ⟨network, rfl, parsed, descends, length, by decide⟩

end Grammar

end TransitionNetworks
