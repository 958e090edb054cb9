import TransitionNetworks.Provenance

/-!
# Derivations

A derivation is a list of events: a rule is entered, a rule is exited, a token is consumed. It is
read off the provenance of an item by a walk back to the seed (`Walk.step`). Where the walk comes to
an item found behind a call it goes back through the call first and keeps the caller for later; the
walk through the call ends where the rule was entered, and goes on from the caller kept last, which
need not be the one that the prediction was found from. The events come out last first.

A walk may go round for ever if the provenance goes in circles. `Walk.finish` follows it for so many
steps that a longer walk comes to no end: a walk that ends meets no place again before it is through
with it, so a place takes at most twice as many steps as the places below it, and with `n` places
known the walk ends within `2 ^ (n + 1) - 1` steps. The steps are made in rounds of `2 ^ 0`,
`2 ^ 1`, …, `2 ^ n`.
-/

namespace TransitionNetworks

/-- A step of a derivation. -/
inductive Event where
  /-- A rule is entered. -/
  | enter (rule : Nat)
  /-- A rule is exited. -/
  | exit (rule : Nat)
  /-- The token at an index is consumed. -/
  | consume (tokenIndex : Nat)
  deriving DecidableEq

/-- Why no derivation can be read off. -/
inductive DerivationFault where
  /-- The provenance of an item is not known. -/
  | missingProvenance (place : Place)
  /-- A rule is entered at a position without being exited behind it. -/
  | unbalancedReturn (position : Nat)
  /-- The seed is reached inside a number of calls. -/
  | pendingCalls (pending : Nat)
  /-- A token is consumed in front of the first position. -/
  | scanAtStart (item : Item)
  /-- The provenance goes round in a circle. -/
  | endless
  deriving DecidableEq

/-- The message of a fault. -/
def DerivationFault.message : DerivationFault → String
  | missingProvenance place =>
    "no backpointer for " ++ place.item.mention ++ " at position " ++ Nat.repr place.position
  | unbalancedReturn position =>
    "rule entered at position " ++ Nat.repr position ++ " without a pending return"
  | pendingCalls pending =>
    "reached the seed item with " ++ Nat.repr pending ++ " calls still pending"
  | scanAtStart item => "scan recorded for " ++ item.mention ++ " at the first position"
  | endless => "provenance goes round in a circle"

/-- A walk back through provenance. -/
structure Walk where
  /-- Where the walk is. -/
  place : Place
  /-- The callers from which to go on, that of the innermost call first. -/
  pending : List Place
  /-- The events met so far, the one met last first. -/
  events : List Event
  deriving DecidableEq

/-- What a derivation comes to. -/
abbrev DerivationResult : Type := Except DerivationFault (List Event)

/-- A walk under way, or what it came to. -/
inductive WalkState where
  /-- The walk goes on. -/
  | walking (walk : Walk)
  /-- The walk is over. -/
  | done (result : DerivationResult)

namespace Walk

/-- The walk that begins at a place. -/
def start (place : Place) : Walk := ⟨place, [], []⟩

/-- Go back over the provenance of the place where a walk is. -/
def step (table : ProvenanceTable) : Walk → WalkState
  | ⟨place, pending, events⟩ =>
    match table.find? place with
    | none => .done (.error (.missingProvenance place))
    | some .seed =>
      match pending with
      | [] => .done (.ok events)
      | _ :: _ => .done (.error (.pendingCalls pending.length))
    | some (.epsilon prev) => .walking ⟨⟨place.position, prev⟩, pending, events⟩
    | some (.predict _ rule) =>
      -- the way back goes on from the caller kept, not from the one that the rule was found from
      match pending with
      | [] => .done (.error (.unbalancedReturn place.position))
      | caller :: outer => .walking ⟨caller, outer, .enter rule :: events⟩
    | some (.complete stop caller rule) =>
      .walking ⟨⟨place.position, stop⟩, ⟨stop.origin, caller⟩ :: pending, .exit rule :: events⟩
    | some (.scan prev tokenIndex) =>
      match place.position with
      | 0 => .done (.error (.scanAtStart place.item))
      | position + 1 => .walking ⟨⟨position, prev⟩, pending, .consume tokenIndex :: events⟩

/-- Make `2 ^ k` steps, or as many as there are. -/
def advance (table : ProvenanceTable) : Nat → Walk → WalkState
  | 0, walk => walk.step table
  | k + 1, walk =>
    match advance table k walk with
    | .walking walk => advance table k walk
    | .done result => .done result

/-- Make `2 ^ k` steps, then `2 ^ (k + 1)`, and so on for a number of rounds. -/
def finish (table : ProvenanceTable) : Nat → Nat → Walk → DerivationResult
  | 0, _, _ => .error .endless
  | rounds + 1, k, walk =>
    match advance table k walk with
    | .walking walk => finish table rounds (k + 1) walk
    | .done result => result

end Walk

/-- The events that lead to an item at a position, first event first. -/
def ProvenanceTable.derivation (table : ProvenanceTable) (place : Place) : DerivationResult :=
  Walk.finish table (table.size + 1) 0 (Walk.start place)

end TransitionNetworks
