import TransitionNetworks.Chart
import TransitionNetworks.Occurrence
import TransitionNetworks.StackGraph

/-!
# The findings of a run

A run finds items, position by position. `Findings` holds the chart of the items found, the graph of
the stacks they stand on, the provenance of each and the history. This module holds the single
steps: an item is found (`discover`), a call is entered (`predict`), a rule stops (`complete`), and
what each of them changes.

A call can end at the position where it began before all its callers are known. So it is told to
whichever comes second: the rule that stops goes on from all callers known (`complete`), and a
caller registered later goes on from all stops known (`predict`).
-/

namespace TransitionNetworks

/-- What a run has found so far. -/
structure Findings where
  /-- The items found at each position. -/
  chart : Chart
  /-- The stacks on which the items stand. -/
  stackGraph : StackGraph
  /-- How each item was first found. -/
  provenance : ProvenanceTable
  /-- What happened. -/
  history : Array Occurrence

namespace Findings

/-- Nothing is found. -/
def initial : Findings where
  chart := ∅
  stackGraph := .initial
  provenance := ∅
  history := #[]

/-- Add an occurrence to the history. -/
def note (occurrence : Occurrence) (findings : Findings) : Findings :=
  { findings with history := findings.history.push occurrence }

/-- Find an item at a position, which is news only the first time. -/
def discover (position : Nat) (item : Item) (why : Provenance) (findings : Findings) : Findings :=
  if findings.chart.contains position item then
    findings
  else
    { chart := findings.chart.insert position item
      stackGraph := findings.stackGraph
      provenance := findings.provenance.record ⟨position, item⟩ why
      history := findings.history.push (.found position item why) }

/-- Go on behind a call: from the item in which the rule stopped and one that made the call. -/
def returnTo (position : Nat) (frame : Frame) (stop caller : Item) (findings : Findings) :
    Findings :=
  findings.discover position (caller.withState frame.follow) (.complete stop caller frame.rule)

/-- Enter a call. The start of the rule is found on the node of the call, and a new caller goes on
from every stop at which the call has ended already. -/
def predict (position start follow rule : Nat) (caller : Item) (findings : Findings) : Findings :=
  let frame : Frame := ⟨follow, rule, position⟩
  let (node, stackGraph) := findings.stackGraph.push frame
  let findings := { findings with stackGraph }.discover position ⟨start, position, node⟩
    (.predict caller rule)
  -- a caller that is known misses no stop, since it goes on whenever the rule stops
  if findings.stackGraph.lacksCaller node caller then
    let findings := { findings with stackGraph := findings.stackGraph.addCaller node caller }
    (findings.stackGraph.emptyReturns node).elements.foldl
      (fun findings stop => findings.returnTo position frame stop caller) findings
  else
    findings

/-- A rule stops. Outside all calls there is nothing to go on to, and inside a call of another rule
the stop is left aside. Otherwise every caller known goes on, and if the call began at this very
position the stop is remembered for the callers to come. -/
def complete (position : Nat) (stop : Item) (rule : Nat) (findings : Findings) : Findings :=
  match findings.stackGraph.frame? stop.stack with
  | none => findings
  | some frame =>
    if frame.rule = rule then
      let findings :=
        -- callers can still come only while the position is closed at which the call began
        if frame.position = position then
          { findings with stackGraph := findings.stackGraph.addEmptyReturn stop.stack stop }
        else
          findings
      (findings.stackGraph.callers stop.stack).elements.foldl
        (fun findings caller => findings.returnTo position frame stop caller) findings
    else
      findings.note (.strayStop stop rule frame.rule)

/-- Follow a transition that consumes nothing. -/
def follow (position : Nat) (item : Item) (transition : Transition) (findings : Findings) :
    Findings :=
  match transition with
  | .terminal _ _ => findings
  | .call start follow rule => findings.predict position start follow rule item
  | .epsilon _ target => findings.discover position (item.withState target) (.epsilon item)

/-- Follow everything that an item leads to at its position. An item in a state that is not there
leads to nothing. -/
def expand (network : Network) (position : Nat) (item : Item) (findings : Findings) : Findings :=
  match network.state? item.state with
  | none => findings
  | some state =>
    match state.stopRule? with
    | some rule => findings.complete position item rule
    | none =>
      state.transitions.foldl
        (fun findings transition => findings.follow position item transition) findings

/-- Follow a transition that consumes the token at a position. -/
def consume (position : Nat) (token : Token) (item : Item) (transition : Transition)
    (findings : Findings) : Findings :=
  match transition with
  | .terminal matcher target =>
    if matcher.accepts token then
      findings.discover (position + 1) (item.withState target) (.scan item position)
    else
      findings
  | .call .. => findings
  | .epsilon .. => findings

/-- Follow everything that an item leads to by the token at its position. A rule that stops consumes
nothing, and neither does an item in a state that is not there. -/
def scan (network : Network) (position : Nat) (token : Token) (item : Item)
    (findings : Findings) : Findings :=
  match network.state? item.state with
  | none => findings
  | some state =>
    match state.stopRule? with
    | some _ => findings
    | none =>
      state.transitions.foldl
        (fun findings transition => findings.consume position token item transition) findings

@[simp] theorem chart_note (occurrence : Occurrence) (findings : Findings) :
    (findings.note occurrence).chart = findings.chart := rfl

@[simp] theorem stackGraph_note (occurrence : Occurrence) (findings : Findings) :
    (findings.note occurrence).stackGraph = findings.stackGraph := rfl

@[simp] theorem provenance_note (occurrence : Occurrence) (findings : Findings) :
    (findings.note occurrence).provenance = findings.provenance := rfl

/-- Finding an item that is known changes nothing. -/
theorem discover_of_contains {findings : Findings} {position : Nat} {item : Item}
    (known : findings.chart.contains position item = true) (why : Provenance) :
    findings.discover position item why = findings := by
  simp [discover, known]

/-- Finding an item leaves the stacks alone. -/
@[simp] theorem stackGraph_discover (position : Nat) (item : Item) (why : Provenance)
    (findings : Findings) :
    (findings.discover position item why).stackGraph = findings.stackGraph := by
  unfold discover
  split <;> rfl

/-- Finding an item inserts it into the chart, which changes nothing if it is known. -/
theorem chart_discover (position : Nat) (item : Item) (why : Provenance) (findings : Findings) :
    (findings.discover position item why).chart = findings.chart.insert position item := by
  unfold discover
  split
  · rename_i known
    exact (Chart.insert_of_contains known).symm
  · rfl

/-- Finding an item inserts it at its position, whether or not it is known. -/
theorem itemsAt_discover (position other : Nat) (item : Item) (why : Provenance)
    (findings : Findings) :
    (findings.discover position item why).chart.itemsAt other =
      if other = position then (findings.chart.itemsAt position).insert item
      else findings.chart.itemsAt other := by
  rw [chart_discover, Chart.itemsAt_insert]

end Findings

end TransitionNetworks
