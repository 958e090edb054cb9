import TransitionNetworks.Proofs.Derivation.Spelling
import TransitionNetworks.Proofs.Tree.Steps
import Mathlib.Data.List.Forall2

/-! # Trees of what a forest spells

The transitions of a path, one after the other, are a trail (`Network.Trail`). A node stands for a
transition (`Node.StandsFor`) if it is a leaf whose token the matcher accepts, or a branch of the
rule called. A branch is justified (`Branch.Justified`) if its children stand for the transitions of
a trail through its rule, epsilon steps left out.

The events of a forest that spells a part of the input are taken without a fault, and the branches
that they attach are justified (`Network.Spells.pushAll`). -/

namespace TransitionNetworks

/-- Where a transition leads: to its target, or behind its call. -/
def Transition.destination : Transition → Nat
  | terminal _ target => target
  | call _ follow _ => follow
  | epsilon _ target => target

/-- Whether a transition leaves something in a tree. -/
def Transition.isVisible : Transition → Bool
  | terminal .. => true
  | call .. => true
  | epsilon .. => false

/-- **Trails.** Transitions one after the other, each offered by the state to which the one before
leads, so that no rule stops in a state from which the trail goes on. -/
inductive Network.Trail (network : Network) : Nat → List Transition → Nat → Prop
  /-- The trail without transitions. -/
  | refl (state : Nat) : Trail network state [] state
  /-- A trail that takes one more transition. -/
  | step {origin here : Nat} {before : List Transition} {transition : Transition}
      (trail : Trail network origin before here) (offers : network.Offers here transition) :
      Trail network origin (before ++ [transition]) transition.destination

/-- A leaf stands for a terminal transition that accepts its token of the input, and a branch for a
call of its rule. -/
inductive Node.StandsFor (input : List Token) : Node → Transition → Prop
  /-- The token of the leaf is accepted. -/
  | terminal {index target : Nat} {token : Token} {matcher : Matcher}
      (read : input[index]? = some token) (accepts : matcher.accepts token = true) :
      StandsFor input (.leaf ⟨index, token⟩) (.terminal matcher target)
  /-- The rule of the branch is called. -/
  | call {branch : Branch} {start follow : Nat} :
      StandsFor input (.branch branch) (.call start follow branch.rule)

/-- The ids of a list are those of nodes in a list, one by one. -/
def Resolves (nodes : Array Node) (ids : Array Nat) (children : List Node) : Prop :=
  ids.toList.map (fun id => nodes[id]?) = children.map some

/-- **Explained children.** The nodes with some ids stand for the visible transitions of a trail
from a state to another. -/
def Network.Explains (network : Network) (input : List Token) (nodes : Array Node) (origin : Nat)
    (ids : Array Nat) (target : Nat) : Prop :=
  ∃ trail children, network.Trail origin trail target ∧ Resolves nodes ids children ∧
    List.Forall₂ (Node.StandsFor input) children (trail.filter Transition.isVisible)

/-- **Justified branches.** The children of a branch are explained by a trail from the start of its
rule to a state. -/
def Branch.Justified (network : Network) (input : List Token) (nodes : Array Node) (stop : Nat)
    (branch : Branch) : Prop :=
  ∃ rule, network.rule? branch.rule = some rule ∧
    network.Explains input nodes rule.start branch.children stop

/-- No ids resolve to no nodes. -/
theorem resolves_nil (nodes : Array Node) : Resolves nodes #[] [] := rfl

/-- Ids in a row resolve to nodes in a row. -/
theorem Resolves.append {nodes : Array Node} {ids others : Array Nat} {children more : List Node}
    (first : Resolves nodes ids children) (second : Resolves nodes others more) :
    Resolves nodes (ids ++ others) (children ++ more) := by
  unfold Resolves at first second ⊢
  rw [Array.toList_append, List.map_append, List.map_append, first, second]

/-- What an id resolves to stays when nodes are added. -/
theorem Resolves.mono {nodes : Array Node} {ids : Array Nat} {children : List Node}
    (resolves : Resolves nodes ids children) (more : Array Node) :
    Resolves (nodes ++ more) ids children := by
  unfold Resolves at resolves ⊢
  rw [← resolves]
  apply List.map_congr_left
  intro id member
  -- an id that resolves to a node is in use, so the nodes added come behind it
  have known : nodes[id]? ∈ children.map some := by
    rw [← resolves]
    exact List.mem_map_of_mem member
  obtain ⟨child, -, here⟩ := List.mem_map.1 known
  have bound : id < nodes.size := by
    rw [eq_comm, Array.getElem?_eq_some_iff] at here
    exact here.1
  exact Array.getElem?_append_left bound

/-- The last node resolves its own id. -/
theorem resolves_last (nodes : Array Node) (node : Node) :
    Resolves (nodes.push node) #[nodes.size] [node] := by
  simp [Resolves]

namespace Network

variable {network : Network} {input : List Token} {nodes : Array Node} {ids : Array Nat}
  {origin here target : Nat}

/-- A state leads to itself without a child. -/
theorem explains_refl (network : Network) (input : List Token) (nodes : Array Node)
    (origin : Nat) : network.Explains input nodes origin #[] origin :=
  ⟨[], [], .refl origin, resolves_nil nodes, .nil⟩

/-- What is explained stays so when nodes are added. -/
theorem Explains.mono (explains : network.Explains input nodes origin ids target)
    (more : Array Node) : network.Explains input (nodes ++ more) origin ids target := by
  obtain ⟨trail, children, leads, resolves, stand⟩ := explains
  exact ⟨trail, children, leads, resolves.mono more, stand⟩

/-- An epsilon transition needs no child. -/
theorem Explains.epsilon {kind : EpsilonKind}
    (explains : network.Explains input nodes origin ids here)
    (offers : network.Offers here (.epsilon kind target)) :
    network.Explains input nodes origin ids target := by
  obtain ⟨trail, children, leads, resolves, stand⟩ := explains
  refine ⟨_, children, leads.step offers, resolves, ?_⟩
  rw [List.filter_append]
  simpa [Transition.isVisible] using stand

/-- A visible transition needs one more child that stands for it. -/
theorem Explains.step {transition : Transition} {node : Node}
    (explains : network.Explains input nodes origin ids here)
    (offers : network.Offers here transition) (visible : transition.isVisible = true)
    (stands : node.StandsFor input transition) :
    network.Explains input (nodes.push node) origin (ids.push nodes.size)
      transition.destination := by
  obtain ⟨trail, children, leads, resolves, stand⟩ := explains
  refine ⟨_, children ++ [node], leads.step offers, ?_, ?_⟩
  · have known := resolves.mono #[node]
    rw [Array.append_singleton] at known
    have both := known.append (resolves_last nodes node)
    rwa [Array.append_singleton] at both
  · rw [List.filter_append, List.filter_singleton, visible]
    exact List.rel_append stand (.cons stands .nil)

end Network

/-- A justified branch stays so when nodes are added. -/
theorem Branch.Justified.mono {network : Network} {input : List Token} {nodes : Array Node}
    {stop : Nat} {branch : Branch} (justified : branch.Justified network input nodes stop)
    (more : Array Node) : branch.Justified network input (nodes ++ more) stop := by
  obtain ⟨rule, known, explains⟩ := justified
  exact ⟨rule, known, explains.mono more⟩

namespace Network

variable {network : Network} {input : List Token} {began origin position state : Nat}
  {forest : Forest}

/-- A rule that exists has a name. -/
theorem ruleName?_of_rule? {rule : Nat} {called : Rule} (known : network.rule? rule = some called) :
    network.ruleName? rule = some called.name := by
  rw [Blueprint.ruleName?, known]
  rfl

/-- **What a forest spells has a tree.** Its events are taken as a growth up to its position, whose
children are explained and whose branches are justified. -/
theorem Spells.pushAll (spells : network.Spells input began origin forest position state)
    (assembly : Assembly) (here : assembly.cursor = began) :
    ∃ new ids,
      assembly.pushAll network input.toArray forest.events = .ok (assembly.grow new ids position) ∧
      network.Explains input (assembly.nodes ++ new) origin ids state ∧
      ∀ branch, .branch branch ∈ new → ∃ stop, network.StopsIn branch.rule stop ∧
        branch.Justified network input (assembly.nodes ++ new) stop := by
  induction spells generalizing assembly with
  | refl position state =>
    subst here
    refine ⟨#[], #[], ?_, network.explains_refl _ _ _, ?_⟩
    · rw [Assembly.grow_nothing]
      rfl
    · intro branch member
      exact absurd member (Array.not_mem_empty _)
  | @epsilon began origin position here target forest kind path offers ih =>
    obtain ⟨new, ids, taken, explains, justified⟩ := ih assembly here
    exact ⟨new, ids, taken, explains.epsilon offers, justified⟩
  | @terminal began origin position here target forest matcher token path offers read accepts ih =>
    obtain ⟨new, ids, taken, explains, justified⟩ := ih assembly here
    have next : input.toArray[position]? = some token := by rwa [List.getElem?_toArray]
    have step := explains.step offers rfl (.terminal read accepts)
    refine ⟨_, _, Assembly.pushAll_append_consume taken next, ?_, ?_⟩
    · rw [Array.append_push]
      exact step
    · -- the leaf of the token is the last node, and no branch
      intro branch member
      rw [Array.append_push, ← Array.append_singleton]
      rcases Array.mem_push.1 member with old | last
      · obtain ⟨stop, stops, because⟩ := justified branch old
        exact ⟨stop, stops, because.mono _⟩
      · cases last
  | @call began origin middle here start follow rule position stop before inside path offers
      through stops ihPath ihThrough =>
    -- the tree in front of the call, and the tree inside once the rule is entered
    obtain ⟨called, known, rfl⟩ := offers.rule?_of_call
    obtain ⟨new, ids, taken, explains, justified⟩ := ihPath assembly here
    obtain ⟨more, others, takenInside, explainsInside, justifiedInside⟩ :=
      ihThrough ((assembly.grow new ids middle).opened rule called.name) (by simp [Assembly.opened])
    have nodes : ((assembly.grow new ids middle).opened rule called.name).nodes ++ more =
        assembly.nodes ++ (new ++ more) := by simp [Assembly.opened]
    rw [nodes] at explainsInside justifiedInside
    have stands : Node.StandsFor input (.branch ⟨rule, called.name, ⟨middle, position⟩, others⟩)
        (.call called.start follow rule) := .call
    have step := (explains.mono more).step offers rfl stands
    rw [Array.append_assoc] at step
    refine ⟨_, _, Assembly.pushAll_append_call taken (network.ruleName?_of_rule? known) takenInside,
      ?_, ?_⟩
    · rw [Array.append_push]
      exact step
    · -- a branch was attached in front of the call, or inside it, or is that of the rule itself
      intro branch member
      rw [Array.append_push, ← Array.append_singleton]
      rcases Array.mem_push.1 member with old | last
      · rcases Array.mem_append.1 old with first | second
        · obtain ⟨stop, stops, because⟩ := justified branch first
          rw [← Array.append_assoc]
          exact ⟨stop, stops, (because.mono more).mono _⟩
        · obtain ⟨stop, stops, because⟩ := justifiedInside branch second
          exact ⟨stop, stops, because.mono _⟩
      · cases last
        exact ⟨stop, stops, Branch.Justified.mono ⟨called, known, explainsInside⟩ _⟩

end Network

end TransitionNetworks
