import TransitionNetworks.Derivation
import TransitionNetworks.Tree

/-!
# Assembling parse trees

A parse tree is assembled from the events of a derivation. An `Assembly` holds the nodes attached so
far, the rules that are open and how many tokens are consumed. An event that does not fit is refused
with a fault. A refused event changes nothing, with one exception: a rule exited in place of another
takes the open one away with it, and with it the nodes below.

`Assembly.finish` closes what is still open. `ParseTree.assemble` takes a whole derivation and stops
at the first fault.
-/

namespace TransitionNetworks

/-- Why an event does not fit. -/
inductive TreeFault where
  /-- Another token than the next one is consumed. -/
  | cursorMismatch (expected found : Nat)
  /-- A token behind the last one is consumed. -/
  | tokenOutOfRange (index : Nat)
  /-- A rule is exited and none is open. -/
  | unbalancedExit (rule : Nat)
  /-- A rule is exited and another one is open. -/
  | mismatchedExit (expected found : Nat)
  /-- There is no such rule. -/
  | unknownRule (rule : Nat)
  deriving DecidableEq

/-- The message of a fault. -/
def TreeFault.message : TreeFault → String
  | cursorMismatch expected found =>
    "expected to consume token " ++ Nat.repr expected ++ ", but the derivation consumed token " ++
      Nat.repr found
  | tokenOutOfRange index =>
    "derivation consumed token " ++ Nat.repr index ++ ", which is past the end of the input"
  | unbalancedExit rule => "derivation exits rule " ++ mentionRule rule ++ " with no rule open"
  | mismatchedExit expected found =>
    "derivation exits rule " ++ mentionRule found ++ " while rule " ++ mentionRule expected ++
      " is open"
  | unknownRule rule => "rule " ++ mentionRule rule ++ " is not in the automaton"

/-- A rule that is entered and not exited. -/
structure OpenBranch where
  /-- The rule. -/
  rule : Nat
  /-- The name of the rule. -/
  name : String
  /-- Where the rule was entered. -/
  start : Nat
  /-- The ids of the nodes directly below, from left to right. -/
  children : Array Nat
  deriving DecidableEq

namespace OpenBranch

/-- Enter a rule. -/
def enter (network : Network) (rule start : Nat) : Except TreeFault OpenBranch :=
  match network.ruleName? rule with
  | none => .error (.unknownRule rule)
  | some name => .ok ⟨rule, name, start, #[]⟩

/-- Exit a rule. -/
def close (stop : Nat) : OpenBranch → Branch
  | ⟨rule, name, start, children⟩ => ⟨rule, name, ⟨start, stop⟩, children⟩

/-- Add a node directly below. -/
def addChild (id : Nat) : OpenBranch → OpenBranch
  | ⟨rule, name, start, children⟩ => ⟨rule, name, start, children.push id⟩

end OpenBranch

/-- A parse tree under way. -/
structure Assembly where
  /-- How many tokens are consumed. -/
  cursor : Nat
  /-- The nodes attached so far, each at the place that is its id. -/
  nodes : Array Node
  /-- The root, which stays open until the end. -/
  root : OpenBranch
  /-- The open rules below the root, the innermost first. -/
  openBranches : List OpenBranch
  deriving DecidableEq

namespace Assembly

/-- The assembly of a tree whose root is the start rule. -/
def start (network : Network) (startRule : Nat) : Except TreeFault Assembly :=
  (OpenBranch.enter network startRule 0).map fun root => ⟨0, #[], root, []⟩

/-- Attach a node below the innermost open rule. -/
def attach (node : Node) : Assembly → Assembly
  | ⟨cursor, nodes, root, []⟩ =>
    let id := nodes.size
    ⟨cursor, nodes.push node, root.addChild id, []⟩
  | ⟨cursor, nodes, root, innermost :: outer⟩ =>
    let id := nodes.size
    ⟨cursor, nodes.push node, root, innermost.addChild id :: outer⟩

/-- Enter a rule. -/
def enter (network : Network) (rule : Nat) (assembly : Assembly) : Option TreeFault × Assembly :=
  match OpenBranch.enter network rule assembly.cursor with
  | .error fault => (some fault, assembly)
  | .ok branch => (none, { assembly with openBranches := branch :: assembly.openBranches })

/-- Exit the innermost open rule, if there is one, and attach it. -/
def exitInnermost : Assembly → Assembly
  | ⟨cursor, nodes, root, []⟩ => ⟨cursor, nodes, root, []⟩
  | ⟨cursor, nodes, root, innermost :: outer⟩ =>
    attach (.branch (innermost.close cursor)) ⟨cursor, nodes, root, outer⟩

/-- Exit a rule, which has to be the innermost open one. -/
def exit (rule : Nat) (assembly : Assembly) : Option TreeFault × Assembly :=
  match assembly.openBranches with
  | [] => (some (.unbalancedExit rule), assembly)
  | innermost :: outer =>
    if innermost.rule = rule then
      (none, assembly.exitInnermost)
    else
      -- the open rule is taken away and attached nowhere
      (some (.mismatchedExit innermost.rule rule), { assembly with openBranches := outer })

/-- Consume the token at an index, which has to be the next one. -/
def consume (tokens : Array Token) (index : Nat) (assembly : Assembly) :
    Option TreeFault × Assembly :=
  if index = assembly.cursor then
    match tokens[index]? with
    | none => (some (.tokenOutOfRange index), assembly)
    | some token =>
      let assembly := assembly.attach (.leaf ⟨index, token⟩)
      (none, { assembly with cursor := assembly.cursor + 1 })
  else
    (some (.cursorMismatch assembly.cursor index), assembly)

/-- Take an event, or refuse it with a fault. -/
def push (network : Network) (tokens : Array Token) (event : Event) (assembly : Assembly) :
    Option TreeFault × Assembly :=
  match event with
  | .enter rule => assembly.enter network rule
  | .exit rule => assembly.exit rule
  | .consume index => assembly.consume tokens index

/-- Take the events of a list up to the first one refused. -/
def pushAll (network : Network) (tokens : Array Token) :
    List Event → Assembly → Except TreeFault Assembly
  | [], assembly => .ok assembly
  | event :: rest, assembly =>
    match assembly.push network tokens event with
    | (some fault, _) => .error fault
    | (none, assembly) => pushAll network tokens rest assembly

/-- Take the events of a list, going on behind those refused, with what became of each. -/
def pushEach (network : Network) (tokens : Array Token) :
    List Event → Assembly → List (Option TreeFault) × Assembly
  | [], assembly => ([], assembly)
  | event :: rest, assembly =>
    let (fault, assembly) := assembly.push network tokens event
    let (faults, assembly) := pushEach network tokens rest assembly
    (fault :: faults, assembly)

/-- Exit a number of open rules, the innermost first. -/
def exitMany : Nat → Assembly → Assembly
  | 0, assembly => assembly
  | count + 1, assembly => exitMany count assembly.exitInnermost

/-- Exit all open rules and the root. -/
def finish (assembly : Assembly) : ParseTree :=
  let assembly := assembly.exitMany assembly.openBranches.length
  { root := assembly.root.close assembly.cursor, nodes := assembly.nodes }

/-- Attaching a node leaves the cursor alone. -/
@[simp] theorem cursor_attach (node : Node) (assembly : Assembly) :
    (assembly.attach node).cursor = assembly.cursor := by
  obtain ⟨cursor, nodes, root, openBranches⟩ := assembly
  cases openBranches <;> rfl

/-- A node attached comes behind the others. -/
@[simp] theorem nodes_attach (node : Node) (assembly : Assembly) :
    (assembly.attach node).nodes = assembly.nodes.push node := by
  obtain ⟨cursor, nodes, root, openBranches⟩ := assembly
  cases openBranches <;> rfl

/-- Exiting as many rules as are open leaves none open. -/
theorem openBranches_exitMany (assembly : Assembly) :
    (assembly.exitMany assembly.openBranches.length).openBranches = [] := by
  suffices general : ∀ (count : Nat) (assembly : Assembly),
      assembly.openBranches.length = count → (assembly.exitMany count).openBranches = [] from
    general _ assembly rfl
  intro count
  induction count with
  | zero => exact fun assembly length => List.length_eq_zero_iff.1 length
  | succ count ih =>
    intro assembly length
    refine ih _ ?_
    obtain ⟨cursor, nodes, root, openBranches⟩ := assembly
    match openBranches with
    | [_] => exact Nat.succ.inj length
    | _ :: _ :: _ => exact Nat.succ.inj length

end Assembly

/-- The parse tree of a derivation, or the first fault. -/
def ParseTree.assemble (network : Network) (tokens : Array Token) (startRule : Nat)
    (events : List Event) : Except TreeFault ParseTree := do
  let assembly ← Assembly.start network startRule
  let assembly ← assembly.pushAll network tokens events
  return assembly.finish

end TransitionNetworks
