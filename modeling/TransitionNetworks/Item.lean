import TransitionNetworks.Network

/-!
# Items and frames

An item says that a run can be in a state, inside a call that began at some position, with some
stack of calls around it. A frame is a call that is under way: the rule, the position at which it
began, and the state to go to when it is over. Stacks of frames are shared between items, so an item
holds only the number of a node in the graph of stacks, its id. A position is given by the number of
tokens in front of it.

Items and frames are ordered by their parts, in the order in which the parts are declared.
-/

namespace TransitionNetworks

/-- The stack without calls. -/
abbrev emptyStack : Nat := 0

/-- How messages name the stack with an id. -/
def mentionStack (stack : Nat) : String := "StackId(" ++ Nat.repr stack ++ ")"

/-- A state in which a run can be, with the calls around it. -/
structure Item where
  /-- The state. -/
  state : Nat
  /-- The position at which the innermost call began, or the first one outside all calls. -/
  origin : Nat
  /-- The calls under way. -/
  stack : Nat
  deriving DecidableEq

/-- A call under way. -/
structure Frame where
  /-- The state to go to when the call is over. -/
  follow : Nat
  /-- The rule called. -/
  rule : Nat
  /-- The position at which the call began. -/
  position : Nat
  deriving DecidableEq

/-- An item at a position. -/
structure Place where
  /-- The position. -/
  position : Nat
  /-- The item. -/
  item : Item
  deriving DecidableEq

namespace Item

/-- The same calls in another state. -/
def withState (item : Item) (state : Nat) : Item := { item with state }

@[simp] theorem state_withState (item : Item) (state : Nat) :
    (item.withState state).state = state := rfl

@[simp] theorem origin_withState (item : Item) (state : Nat) :
    (item.withState state).origin = item.origin := rfl

@[simp] theorem stack_withState (item : Item) (state : Nat) :
    (item.withState state).stack = item.stack := rfl

/-- How messages name an item. -/
def mention (item : Item) : String :=
  "Item \x7b state: " ++ mentionState item.state ++ ", origin: " ++ Nat.repr item.origin ++
    ", stack: " ++ mentionStack item.stack ++ " \x7d"

/-- Compare items by state, then by origin, then by stack. -/
protected def compare : Item → Item → Ordering :=
  compareLex (compareOn Item.state) (compareLex (compareOn Item.origin) (compareOn Item.stack))

instance : Ord Item := ⟨Item.compare⟩

instance : Std.TransOrd Item :=
  inferInstanceAs (Std.TransCmp (compareLex (compareOn Item.state)
    (compareLex (compareOn Item.origin) (compareOn Item.stack))))

instance : Std.LawfulEqOrd Item where
  eq_of_compare {first second} same := by
    obtain ⟨state, origin, stack⟩ := first
    obtain ⟨state', origin', stack'⟩ := second
    have ⟨sameState, sameOrigin, sameStack⟩ : compare state state' = .eq ∧
        compare origin origin' = .eq ∧ compare stack stack' = .eq := by
      change Item.compare _ _ = .eq at same
      simpa only [Item.compare, compareLex, compareOn, Ordering.then_eq_eq] using same
    rw [Std.LawfulEqCmp.eq_of_compare sameState, Std.LawfulEqCmp.eq_of_compare sameOrigin,
      Std.LawfulEqCmp.eq_of_compare sameStack]

/-- Items in increasing order. -/
def sorted (items : List Item) : List Item :=
  items.mergeSort fun first second => (compare first second).isLE

end Item

namespace Frame

/-- Compare frames by the state that follows, then by rule, then by position. -/
protected def compare : Frame → Frame → Ordering :=
  compareLex (compareOn Frame.follow) (compareLex (compareOn Frame.rule) (compareOn Frame.position))

instance : Ord Frame := ⟨Frame.compare⟩

instance : Std.TransOrd Frame :=
  inferInstanceAs (Std.TransCmp (compareLex (compareOn Frame.follow)
    (compareLex (compareOn Frame.rule) (compareOn Frame.position))))

instance : Std.LawfulEqOrd Frame where
  eq_of_compare {first second} same := by
    obtain ⟨follow, rule, position⟩ := first
    obtain ⟨follow', rule', position'⟩ := second
    have ⟨sameFollow, sameRule, samePosition⟩ : compare follow follow' = .eq ∧
        compare rule rule' = .eq ∧ compare position position' = .eq := by
      change Frame.compare _ _ = .eq at same
      simpa only [Frame.compare, compareLex, compareOn, Ordering.then_eq_eq] using same
    rw [Std.LawfulEqCmp.eq_of_compare sameFollow, Std.LawfulEqCmp.eq_of_compare sameRule,
      Std.LawfulEqCmp.eq_of_compare samePosition]

end Frame

namespace Place

/-- Compare places by position, then by item. -/
protected def compare : Place → Place → Ordering :=
  compareLex (compareOn Place.position) (compareOn Place.item)

instance : Ord Place := ⟨Place.compare⟩

instance : Std.TransOrd Place :=
  inferInstanceAs (Std.TransCmp (compareLex (compareOn Place.position) (compareOn Place.item)))

instance : Std.LawfulEqOrd Place where
  eq_of_compare {first second} same := by
    obtain ⟨position, item⟩ := first
    obtain ⟨position', item'⟩ := second
    have ⟨samePosition, sameItem⟩ :
        compare position position' = .eq ∧ compare item item' = .eq := by
      change Place.compare _ _ = .eq at same
      simpa only [Place.compare, compareLex, compareOn, Ordering.then_eq_eq] using same
    rw [Std.LawfulEqCmp.eq_of_compare samePosition, Std.LawfulEqCmp.eq_of_compare sameItem]

end Place

end TransitionNetworks
