import TransitionNetworks.Recognition.Findings

/-!
# The sweep over an input

A run sweeps over its input from left to right. At each position it closes the set of items, by
expanding every item in the order of discovery, those found on the way included, and then scans the
token there, which gives the first items of the next position. The sweep ends behind the end marker,
or at a position from which no item leads on.

A position `k` can hold at most as many items as there are states and stacks that they can stand on,
which are the empty one and a frame for each call and each position up to `k`
(`Network.capacity`). So many expansions suffice to close it.
-/

namespace TransitionNetworks

/-- As many items as a position can hold. -/
def Network.capacity (network : Network) (position : Nat) : Nat :=
  network.stateCount * (1 + network.callCount * (position + 1))

namespace Findings

/-- Expand the items at a position from place `cursor` on, at most `fuel` of them. -/
def expandFrom (network : Network) (position : Nat) : Nat → Nat → Findings → Findings
  | 0, _, findings => findings
  | fuel + 1, cursor, findings =>
    match findings.chart.item? position cursor with
    | none => findings
    | some item =>
      expandFrom network position fuel (cursor + 1) (findings.expand network position item)

/-- Expand all items at a position, those found on the way included. -/
def close (network : Network) (position : Nat) (findings : Findings) : Findings :=
  findings.expandFrom network position (network.capacity position) 0

/-- Scan the token at a position from all items there. -/
def scanAll (network : Network) (position : Nat) (token : Token) (findings : Findings) :
    Findings :=
  (findings.chart.itemsAt position).elements.foldl
    (fun findings item => findings.scan network position token item) findings

/-- Close a position and scan the token there. -/
def visit (network : Network) (position : Nat) (token : Token) (findings : Findings) : Findings :=
  let findings := (findings.close network position).scanAll network position token
  findings.note (.surveyed position (findings.chart.countAt position)
    (findings.chart.countAt (position + 1)))

/-- Sweep over the tokens from a position on, as long as items lead on. -/
def sweep (network : Network) : Nat → List Token → Findings → Findings
  | _, [], findings => findings
  | position, token :: rest, findings =>
    let findings := findings.visit network position token
    if findings.chart.countAt (position + 1) = 0 then
      findings
    else
      findings.sweep network (position + 1) rest

/-- A sweep ends where no item leads on. -/
theorem sweep_cons_of_eq_zero {network : Network} {position : Nat} {token : Token}
    {rest : List Token} {findings : Findings}
    (ends : (findings.visit network position token).chart.countAt (position + 1) = 0) :
    findings.sweep network position (token :: rest) = findings.visit network position token := by
  simp only [sweep, ends, if_true]

/-- A sweep goes on at the next position where items lead on. -/
theorem sweep_cons_of_ne_zero {network : Network} {position : Nat} {token : Token}
    {rest : List Token} {findings : Findings}
    (goesOn : (findings.visit network position token).chart.countAt (position + 1) ≠ 0) :
    findings.sweep network position (token :: rest) =
      (findings.visit network position token).sweep network (position + 1) rest := by
  simp only [sweep, goesOn, if_false]

/-- Close the position behind the end marker at `last`, if items lead there. -/
def settle (network : Network) (last : Nat) (findings : Findings) : Findings :=
  if findings.chart.countAt (last + 1) = 0 then findings
  else findings.close network (last + 1)

end Findings

end TransitionNetworks
