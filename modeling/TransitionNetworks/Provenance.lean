import TransitionNetworks.Item
import TransitionNetworks.Registry

/-!
# Provenance

The provenance of an item says from which earlier items it was first found. A `ProvenanceTable`
keeps it for every item at every position.
-/

namespace TransitionNetworks

/-- How an item came to be found. -/
inductive Provenance where
  /-- A run begins with the item. -/
  | seed
  /-- By an epsilon step from an item at the same position. -/
  | epsilon (prev : Item)
  /-- As the start of a rule that an item at the same position calls. -/
  | predict (prev : Item) (rule : Nat)
  /-- By going on behind a call: from the item in which the rule stopped at the same position, and
  the item that made the call. -/
  | complete (stop caller : Item) (rule : Nat)
  /-- By consuming a token from an item one position in front. -/
  | scan (prev : Item) (tokenIndex : Nat)
  deriving DecidableEq

/-- The provenance of every item found. -/
abbrev ProvenanceTable : Type := Registry Place Provenance

end TransitionNetworks
