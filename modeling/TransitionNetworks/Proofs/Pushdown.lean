import TransitionNetworks.Proofs.Derivation.Spelling
import TransitionNetworks.Proofs.Run.Sweep

/-! # The graph of stacks and the stacks of a machine

A network can also be run by an ordinary pushdown machine, which keeps the calls under way in a list
(`Network.Move`). Its lists grow without bound, while a run keeps one finite graph, in which a node
stands for all lists that lead from its frame over callers to the empty stack
(`StackGraph.Represents`); a rule that calls itself before it consumes anything even makes a node
the stack of a caller of its own.

The two agree. What an item found spells, the machine moves along on top of any list
(`Network.Spells.moves`), so it comes to every list that the node of an item represents; and a
finished run finds an item for every configuration to which the machine moves, since its items are
settled and have led across their tokens (`Network.reaches_iff_represented`). -/

namespace TransitionNetworks

/-- **Configurations** of a machine that keeps the calls under way in a list. -/
structure Configuration where
  /-- How many tokens are consumed. -/
  position : Nat
  /-- The state. -/
  state : Nat
  /-- The calls under way, innermost first. -/
  calls : List Frame

namespace Network

/-- **The moves of the machine.** -/
inductive Move (network : Network) (input : List Token) : Configuration → Configuration → Prop
  /-- A terminal transition consumes a token that its matcher accepts. -/
  | terminal {position state target : Nat} {calls : List Frame} {matcher : Matcher} {token : Token}
      (offers : network.Offers state (.terminal matcher target))
      (read : input[position]? = some token) (accepts : matcher.accepts token = true) :
      Move network input ⟨position, state, calls⟩ ⟨position + 1, target, calls⟩
  /-- An epsilon transition changes the state only. -/
  | epsilon {position state target : Nat} {calls : List Frame} {kind : EpsilonKind}
      (offers : network.Offers state (.epsilon kind target)) :
      Move network input ⟨position, state, calls⟩ ⟨position, target, calls⟩
  /-- A call pushes a frame. -/
  | push {position state start follow rule : Nat} {calls : List Frame}
      (offers : network.Offers state (.call start follow rule)) :
      Move network input ⟨position, state, calls⟩
        ⟨position, start, ⟨follow, rule, position⟩ :: calls⟩
  /-- A rule that stops pops the frame of its call. -/
  | pop {position state : Nat} {frame : Frame} {calls : List Frame}
      (stops : network.StopsIn frame.rule state) :
      Move network input ⟨position, state, frame :: calls⟩ ⟨position, frame.follow, calls⟩

/-- Any number of moves. -/
abbrev Moves (network : Network) (input : List Token) : Configuration → Configuration → Prop :=
  Relation.ReflTransGen (network.Move input)

/-- The machine that begins in a state with no calls under way comes to a configuration. -/
def Reaches (network : Network) (start : Nat) (input : List Token) (here : Configuration) : Prop :=
  network.Moves input ⟨0, start, []⟩ here

/-- **What is spelled is moved along,** whatever calls are under way: a call inside pushes a frame
on top of them and pops it again. -/
theorem Spells.moves {network : Network} {input : List Token} {began origin position target : Nat}
    {forest : Forest} (spells : network.Spells input began origin forest position target)
    (calls : List Frame) :
    network.Moves input ⟨began, origin, calls⟩ ⟨position, target, calls⟩ := by
  induction spells generalizing calls with
  | refl position state => exact .refl
  | epsilon _ offers ih => exact (ih calls).tail (.epsilon offers)
  | terminal _ offers read accepts ih => exact (ih calls).tail (.terminal offers read accepts)
  | @call _ _ middle _ _ follow rule position _ _ _ path offers through stops ihPath ihThrough =>
    have entered := (ihPath calls).tail (.push offers)
    have stopped := entered.trans (ihThrough (⟨follow, rule, middle⟩ :: calls))
    exact stopped.tail (.pop stops)

end Network

/-- **The lists that a node stands for.** The frame of a node is on top of a list that the stack of
one of its callers stands for. -/
inductive StackGraph.Represents (graph : StackGraph) : Nat → List Frame → Prop
  /-- The empty stack has no frames. -/
  | empty : Represents graph emptyStack []
  /-- The frame of a node lies on the stack of a caller. -/
  | push {node : Nat} {frame : Frame} {caller : Item} {calls : List Frame}
      (here : graph.frame? node = some frame) (registered : caller ∈ graph.callers node)
      (below : Represents graph caller.stack calls) : Represents graph node (frame :: calls)

namespace Findings

variable {network : Network} {start : Nat} {input : List Token} {findings : Findings}
  {position : Nat} {item : Item} {calls : List Frame}

/-- **Every stack represented is a stack of the machine.** The induction is on the list: the machine
comes to the caller with the rest of the list, enters the call, and moves along what the item has
spelled since. -/
theorem Linked.reaches (linked : findings.Linked network start input)
    (represents : findings.stackGraph.Represents item.stack calls)
    (found : findings.Has position item) :
    network.Reaches start input ⟨position, item.state, calls⟩ := by
  generalize stack : item.stack = node at represents
  induction represents generalizing position item with
  | empty =>
    obtain ⟨forest, base, -, isBase, spells⟩ := linked.derived found
    rw [stack] at isBase
    cases isBase with
    | outside => exact spells.moves []
    | inside here =>
      rw [StackGraph.frame?_empty] at here
      cases here
  | @push node frame caller calls here registered below ih =>
    obtain ⟨foundCaller, entry, offers⟩ := linked.caller here registered
    have called := (ih foundCaller rfl).tail (.push offers)
    obtain ⟨forest, base, -, isBase, spells⟩ := linked.derived found
    obtain ⟨rule, known, rfl⟩ := offers.rule?_of_call
    rw [stack] at isBase
    cases isBase with
    | outside =>
      rw [StackGraph.frame?_empty] at here
      cases here
    | @inside _ frame' rule' _ here' known' _ =>
      -- the item goes back to the start of the rule that the caller calls
      rw [here] at here'
      cases here'
      rw [known] at known'
      cases known'
      exact called.trans (spells.moves (frame :: calls))

/-- An item stands for a configuration if it is found where the configuration is, in its state, and
its node represents the calls under way. -/
def Covers (findings : Findings) (here : Configuration) : Prop :=
  ∃ item, findings.Has here.position item ∧ item.state = here.state ∧
    findings.stackGraph.Represents item.stack here.calls

/-- **Finished findings follow every move of the machine.** -/
theorem Finished.covers_move (finished : findings.Finished network start input)
    {here next : Configuration} (move : network.Move input here next)
    (covers : findings.Covers here) : findings.Covers next := by
  obtain ⟨item, found, state, represents⟩ := covers
  have settled := finished.settled _ _ found
  cases move with
  | terminal offers read accepts =>
    subst state
    have across := finished.scanned _ _ _ found read _ _ offers accepts
    exact ⟨item.withState _, across, rfl, represents⟩
  | epsilon offers =>
    subst state
    exact ⟨item.withState _, settled.followed _ offers, rfl, represents⟩
  | @push position _ start follow rule calls offers =>
    subst state
    obtain ⟨node, here, entered, registered⟩ := settled.followed _ offers
    exact ⟨⟨start, position, node⟩, entered, rfl, .push here registered represents⟩
  | @pop position _ frame calls stops =>
    subst state
    -- the list is represented through a caller, and all callers of the node go on
    generalize stack : item.stack = node at represents
    generalize list : frame :: calls = whole at represents
    cases represents with
    | empty => cases list
    | @push node top caller below here registered represents =>
      cases list
      rw [← stack] at here registered
      have returned := settled.returned frame here stops caller registered
      exact ⟨caller.withState frame.follow, returned, rfl, represents⟩

/-- **The machine comes to the configurations that finished findings cover,** and to no others. -/
theorem Finished.reaches_iff (finished : findings.Finished network start input)
    (here : Configuration) : network.Reaches start input here ↔ findings.Covers here := by
  constructor
  · intro moves
    induction moves with
    | refl => exact ⟨⟨start, 0, emptyStack⟩, finished.seeded, rfl, .empty⟩
    | tail _ move ih => exact finished.covers_move move ih
  · rintro ⟨item, found, state, represents⟩
    have reaches := finished.linked.reaches represents found
    rwa [state] at reaches

end Findings

namespace Network

/-- **The graph of stacks represents the stacks of the machine, and no others.** From a rule that
exists a run succeeds, and the machine comes to a state and a list of calls after a number of tokens
exactly if the run has found an item there in that state whose node represents the list. -/
theorem reaches_iff_represented (network : Network) {startRule : Nat} {rule : Rule}
    (known : network.rule? startRule = some rule) (tokens : List Token) :
    ∃ recognition, network.recognition startRule tokens = .ok recognition ∧
      recognition.input.toList = beforeEndMarker tokens ++ [Token.endMarker] ∧
      ∀ position state calls,
        network.Reaches rule.start recognition.input.toList ⟨position, state, calls⟩ ↔
          ∃ item, recognition.chart.contains position item = true ∧ item.state = state ∧
            recognition.findings.stackGraph.Represents item.stack calls := by
  obtain ⟨finished, -⟩ := network.finished_recognitionFrom known tokens
  refine ⟨_, recognition_of_rule? known tokens, rfl, ?_⟩
  intro position state calls
  rw [show (network.recognitionFrom startRule rule tokens).input.toList = inputOf tokens from rfl,
    finished.reaches_iff]
  simp only [Findings.Covers, Findings.has_iff_contains]
  rfl

/-- The sample calls its rule three times before it consumes anything, and one node of the run
stands for the three calls. -/
theorem reaches_iff_represented_doubling :
    ∃ recognition item, doubling.recognition 0 [7] = .ok recognition ∧
      recognition.chart.contains 0 item = true ∧ item.state = 0 ∧
      recognition.findings.stackGraph.Represents item.stack
        [⟨2, 0, 0⟩, ⟨2, 0, 0⟩, ⟨2, 0, 0⟩] := by
  have known : doubling.rule? 0 = some ⟨"S", 0, 1⟩ := rfl
  obtain ⟨recognition, ran, -, agrees⟩ := reaches_iff_represented doubling known [7]
  have offers : doubling.Offers 0 (.call 0 2 0) := ⟨_, rfl, rfl, by decide⟩
  have once : doubling.Reaches 0 recognition.input.toList ⟨0, 0, [⟨2, 0, 0⟩]⟩ :=
    .single (.push offers)
  have thrice := (once.tail (.push offers)).tail (.push offers)
  obtain ⟨item, found, state, represents⟩ := (agrees 0 0 _).1 thrice
  exact ⟨recognition, item, ran, found, state, represents⟩

end Network

end TransitionNetworks
