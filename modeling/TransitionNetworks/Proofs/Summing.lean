import TransitionNetworks.Grammar.Layout
import TransitionNetworks.Grammar.Samples
import TransitionNetworks.Proofs.Run.Situations
import Mathlib.Data.List.ProdSigma

/-! # Sums of ones

On a sum of ones the sample `arithmetic` calls its rules at the operands only. The rule of sums is
left recursive: it is called once, in front of the first operand, and this call and the run outside
all calls go on together from operand to operand. The rules of products and of digits are called
anew in front of each operand, products by sums and by themselves. In front of an operand the run is
in even states and behind it in odd ones, since every chain of the layout begins in an even state
and takes turns with operands and signs. So the first operand has thirty-one situations, and every
further one has twenty-seven. -/

namespace TransitionNetworks

namespace Summing

open Samples

/-- A one and more ones added to it. -/
def ones (more : Nat) : List Token := one :: (List.replicate more [plus, one]).flatten

/-- The moves of the network. -/
def table : MoveTable where
  epsilons :=
    [(0, 6), (0, 10), (2, 12), (2, 16), (4, 18), (4, 20), (4, 22), (4, 24), (9, 1), (11, 1),
      (15, 3), (17, 3), (19, 5), (21, 5), (23, 5), (25, 5)]
  terminals :=
    [(7, .oneOf (.ofList [plus]), 8), (13, .oneOf (.ofList [times]), 14),
      (18, .oneOf (.ofList [one]), 19), (20, .oneOf (.ofList [two]), 21),
      (22, .oneOf (.ofList [three]), 23), (24, .oneOf (.ofList [four]), 25)]
  calls :=
    [(6, 0, 7, 0), (8, 2, 9, 1), (10, 2, 11, 1), (12, 2, 13, 1), (14, 4, 15, 2), (16, 4, 17, 2)]
  stops := [(0, 1), (1, 3), (2, 5)]

/-- The sample has a network, with these moves. -/
theorem exists_network :
    ∃ network, arithmetic.toNetwork = .ok network ∧ network.rule? 0 = some ⟨"S", 0, 1⟩ ∧
      network.moveTable = table :=
  Network.exists_of_moveTable (by decide +kernel)

/-! ## The input -/

/-- Another one in front. -/
theorem ones_succ (more : Nat) : ones (more + 1) = one :: plus :: ones more := by
  rw [ones, ones, List.replicate_succ, List.flatten_cons]
  rfl

/-- A sum of ones has no end marker in it. -/
theorem endMarker_not_mem_ones (more : Nat) : Token.endMarker ∉ ones more := by
  simp [ones, Token.endMarker, one, plus]

/-- Every further one takes two tokens. -/
@[simp] theorem length_ones (more : Nat) : (ones more).length = 2 * more + 1 := by
  induction more with
  | zero => rfl
  | succ more ih =>
    rw [ones_succ, List.length_cons, List.length_cons, ih]
    omega

/-- Ones are read at even positions and signs of addition at odd ones. -/
theorem getElem?_inputOf_ones (more position : Nat) :
    (inputOf (ones more))[position]? =
      if position ≤ 2 * more then some (if position % 2 = 0 then one else plus)
      else if position = 2 * more + 1 then some Token.endMarker
      else none := by
  rw [inputOf, beforeEndMarker_eq_self (endMarker_not_mem_ones more)]
  induction more generalizing position with
  | zero =>
    rcases position with _ | _ | position
    · rfl
    · rfl
    · simp [ones]
  | succ more ih =>
    rw [ones_succ]
    rcases position with _ | _ | position
    · rfl
    · simp
    · rw [List.cons_append, List.cons_append, List.getElem?_cons_succ, List.getElem?_cons_succ, ih]
      have parity : (position + 1 + 1) % 2 = position % 2 := Nat.add_mod_right position 2
      have further : position + 1 + 1 ≤ 2 * (more + 1) ↔ position ≤ 2 * more := by omega
      have last : position + 1 + 1 = 2 * (more + 1) + 1 ↔ position = 2 * more + 1 := by omega
      simp only [parity, further, last]

/-- An operand is read at twice its number. -/
theorem read_one {more operand : Nat} (inside : operand ≤ more) :
    (inputOf (ones more))[2 * operand]? = some one := by
  rw [getElem?_inputOf_ones, if_pos (by omega), if_pos (by omega)]

/-- A sign of addition is read behind every operand but the last one. -/
theorem read_plus_iff (more operand : Nat) :
    (inputOf (ones more))[2 * operand + 1]? = some plus ↔ operand < more := by
  rw [getElem?_inputOf_ones]
  split_ifs <;> simp [plus, one, Token.endMarker] <;> omega

/-- Nothing but ones, signs of addition and the end marker is read. -/
theorem mem_of_read {more position : Nat} {token : Token}
    (read : (inputOf (ones more))[position]? = some token) :
    token ∈ [one, plus, Token.endMarker] := by
  rw [getElem?_inputOf_ones] at read
  split_ifs at read <;> cases read <;> simp

/-! ## The operands -/

/-- The calls that go on from operand to operand: none, and that of the left recursion. -/
def sumCalls : List (Option Frame) := [none, some ⟨7, 0, 0⟩]

/-- The states in which the run is in a sum: at the first operand it begins, at the others it goes
on. -/
def sumStates : Nat → List Nat
  | 0 => [0, 6, 10, 11, 1, 7]
  | _ + 1 => [8, 9, 1, 7]

/-- The state in which a sum goes on behind the product at an operand. -/
def behindProduct : Nat → Nat
  | 0 => 11
  | _ + 1 => 9

/-- The state in which a sum calls the product at an operand. -/
def frontProduct : Nat → Nat
  | 0 => 10
  | _ + 1 => 8

/-- The calls of products at an operand: that of the sum, and that of the left recursion. -/
def productCalls (operand : Nat) : List (Option Frame) :=
  [some ⟨behindProduct operand, 1, 2 * operand⟩, some ⟨13, 1, 2 * operand⟩]

/-- The states in which the run is in a product. -/
def productStates : List Nat := [2, 12, 16, 17, 3, 13]

/-- The call of a digit at an operand. -/
def digitCalls (operand : Nat) : List (Option Frame) := [some ⟨17, 2, 2 * operand⟩]

/-- The states in which the run is in a digit, which is a one. -/
def digitStates : List Nat := [4, 18, 20, 22, 24, 19, 5]

/-- The calls at an operand, those of one rule together, with the states in which the run is there.
-/
def layers (operand : Nat) : List (List (Option Frame) × List Nat) :=
  [(sumCalls, sumStates operand), (productCalls operand, productStates),
    (digitCalls operand, digitStates)]

/-- The calls and states at an operand. -/
def visits (operand : Nat) : List (Option Frame × Nat) :=
  (layers operand).flatMap fun layer => layer.1.product layer.2

/-- The state behind a call and the rule called, which do not tell where the call began. -/
def site (call : Option Frame) : Option (Nat × Nat) :=
  call.map fun frame => (frame.follow, frame.rule)

/-- The situations at all operands. -/
def situations (more : Nat) : List Situation :=
  (List.range (more + 1)).flatMap fun operand =>
    (visits operand).map fun visit => ⟨visit.1, 2 * operand + visit.2 % 2, visit.2⟩

/-- A situation is that of a call and a state of a layer. -/
theorem mem_situations_iff (more : Nat) (situation : Situation) :
    situation ∈ situations more ↔ ∃ operand ≤ more, ∃ layer ∈ layers operand,
      situation.call ∈ layer.1 ∧ situation.state ∈ layer.2 ∧
        situation.position = 2 * operand + situation.state % 2 := by
  obtain ⟨_, _, _⟩ := situation
  simp only [situations, visits, List.mem_flatMap, List.mem_range, List.mem_map, Prod.exists,
    List.pair_mem_product, Situation.mk.injEq, Nat.lt_succ_iff]
  constructor
  · rintro ⟨operand, inside, call, state, ⟨calls, states, isLayer, isCall, isState⟩, rfl, rfl, rfl⟩
    exact ⟨operand, inside, calls, states, isLayer, isCall, isState, rfl⟩
  · rintro ⟨operand, inside, calls, states, isLayer, isCall, isState, rfl⟩
    exact ⟨operand, inside, _, _, ⟨calls, states, isLayer, isCall, isState⟩, rfl, rfl, rfl⟩

/-- No call is visited twice in one state at one operand. -/
theorem nodup_visits (operand : Nat) : (visits operand).Nodup := by
  refine List.Nodup.of_map (fun visit => (site visit.1, visit.2)) ?_
  cases operand with
  | zero => decide
  | succ operand =>
    -- the call sites and the states are those of the second operand
    have second : (visits (operand + 1)).map (fun visit => (site visit.1, visit.2)) =
        (visits 1).map (fun visit => (site visit.1, visit.2)) := rfl
    rw [second]
    decide

/-- The situations are all different. -/
theorem nodup_situations (more : Nat) : (situations more).Nodup := by
  refine List.nodup_flatMap.2 ⟨?_, ?_⟩
  · intro operand _
    refine (nodup_visits operand).map ?_
    intro visit other same
    obtain ⟨call, -, state⟩ := Situation.mk.inj same
    exact Prod.ext call state
  · refine List.nodup_range.imp ?_
    intro operand other different situation listed listed'
    obtain ⟨visit, -, rfl⟩ := List.mem_map.1 listed
    obtain ⟨visit', -, same⟩ := List.mem_map.1 listed'
    obtain ⟨-, position, -⟩ := Situation.mk.inj same
    omega

/-- Thirty-one situations at the first operand, and twenty-seven at every further one. -/
theorem length_situations (more : Nat) : (situations more).length = 27 * more + 31 := by
  have further : ∀ operand, (visits (operand + 1)).length = 27 := fun _ => rfl
  have first : (visits 0).length = 31 := rfl
  rw [situations, List.length_flatMap]
  simp only [List.length_map]
  rw [List.range_succ_eq_map, List.map_cons, List.sum_cons, List.map_map]
  simp [Function.comp_def, further, first]
  omega

/-! ## What is reached -/

/-- A situation is reached on a one and more ones. -/
abbrev Reached (more : Nat) : Situation → Prop := Reachable table 0 (inputOf (ones more))

section

variable {more operand : Nat} {situation : Situation} {layer : List (Option Frame) × List Nat}

/-- Which calls and states make a layer. -/
theorem mem_layers_iff : layer ∈ layers operand ↔ layer = (sumCalls, sumStates operand) ∨
    layer = (productCalls operand, productStates) ∨ layer = (digitCalls operand, digitStates) := by
  simp [layers]

/-- The states of a layer are one of four lists. -/
theorem states_mem (isLayer : layer ∈ layers operand) :
    layer.2 ∈ [sumStates 0, sumStates 1, productStates, digitStates] := by
  rcases mem_layers_iff.1 isLayer with rfl | rfl | rfl
  · cases operand <;> simp [sumStates]
  · simp
  · simp

/-- Epsilon steps stay in a layer, and on their side of the operand. -/
theorem epsilon_mem {state target : Nat} (isLayer : layer ∈ layers operand)
    (isState : state ∈ layer.2) (move : (state, target) ∈ table.epsilons) :
    target ∈ layer.2 ∧ target % 2 = state % 2 := by
  have closed : ∀ states ∈ [sumStates 0, sumStates 1, productStates, digitStates],
      ∀ move ∈ table.epsilons, move.1 ∈ states → move.2 ∈ states ∧ move.2 % 2 = move.1 % 2 := by
    decide
  exact closed _ (states_mem isLayer) _ move isState

/-- A one is consumed in a layer. -/
theorem nineteen_mem (isLayer : layer ∈ layers operand) (isState : 18 ∈ layer.2) :
    19 ∈ layer.2 := by
  have closed : ∀ states ∈ [sumStates 0, sumStates 1, productStates, digitStates],
      18 ∈ states → 19 ∈ states := by decide
  exact closed _ (states_mem isLayer) isState

/-- A call is made in front of an operand and goes on behind one, in the same layer, and it enters a
layer of the operand. -/
theorem call_mem {state entry follow rule : Nat} (isLayer : layer ∈ layers operand)
    (isState : state ∈ layer.2) (move : (state, entry, follow, rule) ∈ table.calls) :
    state % 2 = 0 ∧ follow ∈ layer.2 ∧ follow % 2 = 1 ∧ ∃ called ∈ layers operand,
      some ⟨follow, rule, 2 * operand⟩ ∈ called.1 ∧ entry ∈ called.2 ∧ entry % 2 = 0 := by
  have product : (productCalls operand, productStates) ∈ layers operand := by simp [layers]
  have enters : 2 ∈ productStates := by decide
  rcases mem_layers_iff.1 isLayer with rfl | rfl | rfl
  · cases operand with
    | zero =>
      have possible : ∀ move ∈ table.calls, move.1 ∈ sumStates 0 →
          move = (6, 0, 7, 0) ∨ move = (10, 2, 11, 1) := by decide
      rcases possible _ move isState with same | same <;> cases same
      · exact ⟨rfl, by decide, rfl, _, isLayer, by decide, by decide, rfl⟩
      · exact ⟨rfl, by decide, rfl, _, product, List.mem_cons_self .., enters, rfl⟩
    | succ operand =>
      have possible : ∀ move ∈ table.calls, move.1 ∈ sumStates 1 → move = (8, 2, 9, 1) := by
        decide
      cases possible _ move isState
      exact ⟨rfl, by simp [sumStates], rfl, _, product, List.mem_cons_self .., enters, rfl⟩
  · have possible : ∀ move ∈ table.calls, move.1 ∈ productStates →
        move = (12, 2, 13, 1) ∨ move = (16, 4, 17, 2) := by decide
    rcases possible _ move isState with same | same <;> cases same
    · exact ⟨rfl, by simp [productStates], rfl, _, isLayer, by simp [productCalls], enters, rfl⟩
    · have digit : (digitCalls operand, digitStates) ∈ layers operand := by simp [layers]
      exact ⟨rfl, by simp [productStates], rfl, _, digit, List.mem_singleton_self _,
        List.mem_cons_self .., rfl⟩
  · have possible : ∀ move ∈ table.calls, move.1 ∉ digitStates := by decide
    exact absurd isState (possible _ move)

/-- The calls of a layer began in front of its operand, or it is the layer of sums. -/
theorem call_began {frame : Frame} (isLayer : layer ∈ layers operand)
    (isCall : some frame ∈ layer.1) :
    frame.position = 2 * operand ∨
      layer = (sumCalls, sumStates operand) ∧ frame = ⟨7, 0, 0⟩ := by
  rcases mem_layers_iff.1 isLayer with rfl | rfl | rfl
  · exact Or.inr ⟨rfl, by simpa [sumCalls] using isCall⟩
  · left
    simp only [productCalls, List.mem_cons, Option.some.injEq, List.not_mem_nil, or_false] at isCall
    rcases isCall with rfl | rfl <;> rfl
  · left
    cases List.mem_singleton.1 isCall
    rfl

/-- Sums go on behind an operand in the layer of sums only. -/
theorem eq_of_seven_mem (isLayer : layer ∈ layers operand) (isState : 7 ∈ layer.2) :
    layer = (sumCalls, sumStates operand) := by
  rcases mem_layers_iff.1 isLayer with rfl | rfl | rfl
  · rfl
  · exact absurd isState (by simp [productStates])
  · exact absurd isState (by simp [digitStates])

/-- Sums go on behind every operand. -/
theorem seven_mem_sumStates (operand : Nat) : 7 ∈ sumStates operand := by
  cases operand <;> simp [sumStates]

/-- Of the tokens read, a sign of addition is consumed behind an operand, and a one at it. -/
theorem eq_of_terminal_mem {state target : Nat} {matcher : Matcher} {token : Token}
    (isToken : token ∈ [one, plus, Token.endMarker])
    (move : (state, matcher, target) ∈ table.terminals) (accepts : matcher.accepts token = true) :
    token = plus ∧ state = 7 ∧ target = 8 ∨ state = 18 ∧ target = 19 := by
  simp only [table, List.mem_cons, Prod.mk.injEq, List.not_mem_nil, or_false] at move
  rcases move with ⟨rfl, rfl, rfl⟩ | ⟨rfl, rfl, rfl⟩ | ⟨rfl, rfl, rfl⟩ | ⟨rfl, rfl, rfl⟩ |
    ⟨rfl, rfl, rfl⟩ | ⟨rfl, rfl, rfl⟩
  · exact .inl ⟨by simpa using accepts, rfl, rfl⟩
  · obtain rfl : token = times := by simpa using accepts
    exact absurd isToken (by decide)
  · exact .inr ⟨rfl, rfl⟩
  · obtain rfl : token = two := by simpa using accepts
    exact absurd isToken (by decide)
  · obtain rfl : token = three := by simpa using accepts
    exact absurd isToken (by decide)
  · obtain rfl : token = four := by simpa using accepts
    exact absurd isToken (by decide)

/-- Nothing but the situations at the operands is reached. -/
theorem mem_situations_of_reached (reached : Reached more situation) :
    situation ∈ situations more := by
  simp only [mem_situations_iff]
  induction reached with
  | seed => exact ⟨0, Nat.zero_le more, _, List.mem_cons_self .., by decide, by decide, rfl⟩
  | epsilon _ move ih =>
    obtain ⟨operand, inside, layer, isLayer, isCall, isState, here⟩ := ih
    obtain ⟨isTarget, side⟩ := epsilon_mem isLayer isState move
    exact ⟨operand, inside, layer, isLayer, isCall, isTarget, by rw [side]; exact here⟩
  | scan _ move read accepts ih =>
    obtain ⟨operand, inside, layer, isLayer, isCall, isState, here⟩ := ih
    dsimp only at isCall isState here ⊢
    subst here
    rcases eq_of_terminal_mem (mem_of_read read) move accepts with ⟨rfl, rfl, rfl⟩ | ⟨rfl, rfl⟩
    · -- the sign of addition leads to the next operand
      have next : operand < more := (read_plus_iff ..).1 read
      cases eq_of_seven_mem isLayer isState
      exact ⟨operand + 1, next, _, List.mem_cons_self .., isCall, List.mem_cons_self .., rfl⟩
    · exact ⟨operand, inside, layer, isLayer, isCall, nineteen_mem isLayer isState, rfl⟩
  | predict _ move ih =>
    obtain ⟨operand, inside, layer, isLayer, isCall, isState, here⟩ := ih
    obtain ⟨front, -, -, called, isCalled, began, isEntry, side⟩ := call_mem isLayer isState move
    dsimp only at front here ⊢
    rw [front, Nat.add_zero] at here
    subst here
    exact ⟨operand, inside, called, isCalled, began, isEntry, by rw [side, Nat.add_zero]⟩
  | complete _ stops _ move ihStopped ihCalled =>
    obtain ⟨operand, inside, layer, isLayer, isCall, isState, here⟩ := ihStopped
    obtain ⟨other, inside', caller, isLayer', isCall', isState', here'⟩ := ihCalled
    obtain ⟨front, isFollow, behind, -⟩ := call_mem isLayer' isState' move
    have stopsBehind : ∀ stop ∈ table.stops, stop.2 % 2 = 1 := by decide
    have side := stopsBehind _ stops
    dsimp only at isCall isState here isCall' here' front side ⊢
    rw [front, Nat.add_zero] at here'
    rw [side] at here
    subst here
    rcases call_began isLayer isCall with began | ⟨rfl, same⟩
    · -- the call was made at the operand behind which it stops
      have same : 2 * other = 2 * operand := here'.symm.trans began
      obtain rfl : other = operand := by omega
      exact ⟨other, inside', caller, isLayer', isCall', isFollow, by rw [behind]⟩
    · -- the sum was called at the first operand, and goes on behind any
      cases same
      obtain rfl : other = 0 := by omega
      cases eq_of_seven_mem isLayer' isFollow
      exact ⟨operand, inside, _, List.mem_cons_self .., isCall', seven_mem_sumStates operand, rfl⟩

/-- A digit that is called at an operand is gone through, and the product goes on behind it. -/
theorem reached_digit {call : Option Frame} (inside : operand ≤ more)
    (called : Reached more ⟨call, 2 * operand, 16⟩) :
    (∀ state ∈ digitStates,
      Reached more ⟨some ⟨17, 2, 2 * operand⟩, 2 * operand + state % 2, state⟩) ∧
        Reached more ⟨call, 2 * operand + 1, 17⟩ := by
  have entered : Reached more ⟨some ⟨17, 2, 2 * operand⟩, 2 * operand, 4⟩ :=
    called.predict (by decide)
  have front : Reached more ⟨some ⟨17, 2, 2 * operand⟩, 2 * operand, 18⟩ :=
    entered.epsilon (by decide)
  have behind : Reached more ⟨some ⟨17, 2, 2 * operand⟩, 2 * operand + 1, 19⟩ :=
    front.scan_token (read_one inside) (by simp [table])
  have stopped : Reached more ⟨some ⟨17, 2, 2 * operand⟩, 2 * operand + 1, 5⟩ :=
    behind.epsilon (by decide)
  have behindCall := stopped.complete (by decide) called (by decide : (16, 4, 17, 2) ∈ table.calls)
  refine ⟨?_, behindCall⟩
  intro state isState
  simp only [digitStates, List.mem_cons, List.not_mem_nil, or_false] at isState
  rcases isState with rfl | rfl | rfl | rfl | rfl | rfl | rfl
  · exact entered
  · exact front
  · exact entered.epsilon (by decide)
  · exact entered.epsilon (by decide)
  · exact entered.epsilon (by decide)
  · exact behind
  · exact stopped

/-- A product that is entered at an operand calls a product and a digit there, and stops behind the
digit. -/
theorem reached_stop {call : Option Frame} (inside : operand ≤ more)
    (entered : Reached more ⟨call, 2 * operand, 2⟩) :
    Reached more ⟨call, 2 * operand, 12⟩ ∧ Reached more ⟨call, 2 * operand, 16⟩ ∧
      Reached more ⟨call, 2 * operand + 1, 17⟩ ∧ Reached more ⟨call, 2 * operand + 1, 3⟩ := by
  have called : Reached more ⟨call, 2 * operand, 16⟩ := entered.epsilon (by decide)
  have behind := (reached_digit inside called).2
  exact ⟨entered.epsilon (by decide), called, behind, behind.epsilon (by decide)⟩

/-- A product that is entered at an operand is gone through. Behind the product that it calls itself
it goes on, too. -/
theorem reached_product {call : Option Frame} (inside : operand ≤ more)
    (entered : Reached more ⟨call, 2 * operand, 2⟩) :
    ∀ state ∈ productStates, Reached more ⟨call, 2 * operand + state % 2, state⟩ := by
  obtain ⟨calls, front, behind, stopped⟩ := reached_stop inside entered
  have again : Reached more ⟨some ⟨13, 1, 2 * operand⟩, 2 * operand, 2⟩ := calls.predict (by decide)
  obtain ⟨-, -, -, stopped'⟩ := reached_stop inside again
  intro state isState
  simp only [productStates, List.mem_cons, List.not_mem_nil, or_false] at isState
  rcases isState with rfl | rfl | rfl | rfl | rfl | rfl
  · exact entered
  · exact calls
  · exact front
  · exact behind
  · exact stopped
  · exact stopped'.complete (by decide) calls (by decide : (12, 2, 13, 1) ∈ table.calls)

/-- Products are called at an operand as soon as the sum has come there. -/
theorem frontProduct_mem (operand : Nat) :
    (frontProduct operand, 2, behindProduct operand, 1) ∈ table.calls := by
  cases operand <;> simp [frontProduct, behindProduct, table]

/-- All calls of products at an operand are entered when the sum has come there. -/
theorem reached_entry (inside : operand ≤ more)
    (front : Reached more ⟨none, 2 * operand, frontProduct operand⟩) :
    ∀ call ∈ productCalls operand, Reached more ⟨call, 2 * operand, 2⟩ := by
  have entered := front.predict (frontProduct_mem operand)
  have again := (reached_stop inside entered).1.predict (by decide : (12, 2, 13, 1) ∈ table.calls)
  simp only [productCalls, List.mem_cons, List.not_mem_nil, or_false]
  rintro call (rfl | rfl)
  · exact entered
  · exact again

/-- The sums begin in front of the first operand, outside all calls and in the left recursion. -/
theorem reached_sum (more : Nat) : ∀ call ∈ sumCalls,
    Reached more ⟨call, 0, 0⟩ ∧ Reached more ⟨call, 0, 6⟩ := by
  have begins : Reached more ⟨none, 0, 0⟩ := .seed
  have calls : Reached more ⟨none, 0, 6⟩ := begins.epsilon (by decide)
  have entered : Reached more ⟨some ⟨7, 0, 0⟩, 0, 0⟩ := calls.predict (by decide)
  simp only [sumCalls, List.mem_cons, List.not_mem_nil, or_false]
  rintro call (rfl | rfl)
  · exact ⟨begins, calls⟩
  · exact ⟨entered, entered.epsilon (by decide)⟩

/-- The sums that have come to an operand go on behind it: the product stops there, and so does the
sum of the left recursion, behind which both go on. -/
theorem reached_behind (inside : operand ≤ more)
    (front : ∀ call ∈ sumCalls, Reached more ⟨call, 2 * operand, frontProduct operand⟩) :
    ∀ call ∈ sumCalls, Reached more ⟨call, 2 * operand + 1, behindProduct operand⟩ ∧
      Reached more ⟨call, 2 * operand + 1, 1⟩ ∧ Reached more ⟨call, 2 * operand + 1, 7⟩ := by
  have entered := (front none (by decide)).predict (frontProduct_mem operand)
  have stopped := (reached_stop inside entered).2.2.2
  have behind : ∀ call ∈ sumCalls,
      Reached more ⟨call, 2 * operand + 1, behindProduct operand⟩ := by
    intro call isCall
    exact stopped.complete (by decide) (front call isCall) (frontProduct_mem operand)
  have sums : ∀ call ∈ sumCalls, Reached more ⟨call, 2 * operand + 1, 1⟩ := by
    intro call isCall
    refine (behind call isCall).epsilon ?_
    cases operand <;> simp [behindProduct, table]
  intro call isCall
  have recursion := sums (some ⟨7, 0, 0⟩) (by decide)
  have goesOn := recursion.complete (by decide) (reached_sum more call isCall).2
    (by decide : (6, 0, 7, 0) ∈ table.calls)
  exact ⟨behind call isCall, sums call isCall, goesOn⟩

/-- The sums come to all operands, one after the other. -/
theorem reached_front (inside : operand ≤ more) :
    ∀ call ∈ sumCalls, Reached more ⟨call, 2 * operand, frontProduct operand⟩ := by
  induction operand with
  | zero =>
    intro call isCall
    exact (reached_sum more call isCall).1.epsilon (by decide)
  | succ operand ih =>
    intro call isCall
    have before := Nat.le_of_lt inside
    obtain ⟨-, -, behind⟩ := reached_behind before (ih before) call isCall
    exact behind.scan_token ((read_plus_iff ..).2 inside) (by simp [table, frontProduct])

/-- The situations at the operands are reached. -/
theorem reached_of_mem_situations (listed : situation ∈ situations more) :
    Reached more situation := by
  obtain ⟨call, _, state⟩ := situation
  obtain ⟨operand, inside, layer, isLayer, isCall, isState, here⟩ :=
    (mem_situations_iff ..).1 listed
  dsimp only at isCall isState here
  subst here
  have front := reached_front inside
  have entered := reached_entry inside (front none (by decide))
  rcases mem_layers_iff.1 isLayer with rfl | rfl | rfl
  · obtain ⟨behind, sum, goesOn⟩ := reached_behind inside front call isCall
    cases operand with
    | zero =>
      obtain ⟨begins, calls⟩ := reached_sum more call isCall
      simp only [sumStates, List.mem_cons, List.not_mem_nil, or_false] at isState
      rcases isState with rfl | rfl | rfl | rfl | rfl | rfl
      · exact begins
      · exact calls
      · exact front call isCall
      · exact behind
      · exact sum
      · exact goesOn
    | succ operand =>
      simp only [sumStates, List.mem_cons, List.not_mem_nil, or_false] at isState
      rcases isState with rfl | rfl | rfl | rfl
      · exact front call isCall
      · exact behind
      · exact sum
      · exact goesOn
  · exact reached_product inside (entered call isCall) state isState
  · cases List.mem_singleton.1 isCall
    have called := (reached_stop inside (entered _ (List.mem_cons_self ..))).2.1
    exact (reached_digit inside called).1 state isState

end

/-- The calls that are made at an operand. -/
def operandCalls (operand : Nat) : List (Option Frame) := productCalls operand ++ digitCalls operand

/-- The calls of sums, and those that are made at all operands. -/
def calls (more : Nat) : List (Option Frame) :=
  sumCalls ++ (List.range (more + 1)).flatMap operandCalls

/-- Products and digits are called where they begin. -/
theorem exists_of_mem_operandCalls {operand : Nat} {call : Option Frame}
    (isCall : call ∈ operandCalls operand) :
    ∃ follow rule, call = some ⟨follow, rule + 1, 2 * operand⟩ := by
  simp only [operandCalls, productCalls, digitCalls, List.cons_append, List.nil_append,
    List.mem_cons, List.not_mem_nil, or_false] at isCall
  rcases isCall with rfl | rfl | rfl <;> exact ⟨_, _, rfl⟩

/-- The calls that begin at an operand are all different. -/
theorem nodup_operandCalls (operand : Nat) : (operandCalls operand).Nodup := by
  refine List.Nodup.of_map site ?_
  cases operand with
  | zero => decide
  | succ operand =>
    have second : (operandCalls (operand + 1)).map site = (operandCalls 1).map site := rfl
    rw [second]
    decide

/-- The calls are all different. -/
theorem nodup_calls (more : Nat) : (calls more).Nodup := by
  refine List.nodup_append'.2 ⟨by decide, List.nodup_flatMap.2 ⟨?_, ?_⟩, ?_⟩
  · exact fun operand _ => nodup_operandCalls operand
  · refine List.nodup_range.imp ?_
    intro operand other different call isCall isCall'
    obtain ⟨_, _, rfl⟩ := exists_of_mem_operandCalls isCall
    obtain ⟨_, _, same⟩ := exists_of_mem_operandCalls isCall'
    obtain ⟨-, -, position⟩ := Frame.mk.inj (Option.some.inj same)
    omega
  · intro call isSum listed
    obtain ⟨operand, -, isCall⟩ := List.mem_flatMap.1 listed
    obtain ⟨_, _, rfl⟩ := exists_of_mem_operandCalls isCall
    simp [sumCalls] at isSum

/-- No call, that of the sum, and three at each operand. -/
theorem length_calls (more : Nat) : (calls more).length = 3 * more + 5 := by
  have three : ∀ operand, (operandCalls operand).length = 3 := fun _ => rfl
  rw [calls, List.length_append, List.length_flatMap]
  simp [three, sumCalls]
  omega

/-- Every call at an operand is gone through, and nothing is reached in another one. -/
theorem mem_calls_iff (more : Nat) (call : Option Frame) :
    call ∈ calls more ↔ ∃ situation ∈ situations more, situation.call = call := by
  simp only [calls, operandCalls, List.mem_append, List.mem_flatMap, List.mem_range,
    Nat.lt_succ_iff, mem_situations_iff]
  constructor
  · rintro (isCall | ⟨operand, inside, isCall | isCall⟩)
    · exact ⟨⟨call, 0, 0⟩, ⟨0, Nat.zero_le more, _, mem_layers_iff.2 (Or.inl rfl), isCall,
        List.mem_cons_self .., rfl⟩, rfl⟩
    · exact ⟨⟨call, 2 * operand, 2⟩, ⟨operand, inside, _, mem_layers_iff.2 (Or.inr (Or.inl rfl)),
        isCall, List.mem_cons_self .., by simp⟩, rfl⟩
    · exact ⟨⟨call, 2 * operand, 4⟩, ⟨operand, inside, _, mem_layers_iff.2 (Or.inr (Or.inr rfl)),
        isCall, List.mem_cons_self .., by simp⟩, rfl⟩
  · rintro ⟨situation, ⟨operand, inside, layer, isLayer, isCall, -⟩, rfl⟩
    rcases mem_layers_iff.1 isLayer with rfl | rfl | rfl
    · exact Or.inl isCall
    · exact Or.inr ⟨operand, inside, Or.inl isCall⟩
    · exact Or.inr ⟨operand, inside, Or.inr isCall⟩

/-- Something is reached up to the position behind the last operand. -/
theorem lt_positions_iff (more here : Nat) :
    here < 2 * more + 2 ↔ ∃ situation ∈ situations more, situation.position = here := by
  simp only [mem_situations_iff]
  constructor
  · intro inside
    -- products have a state on both sides of an operand
    have product : (productCalls (here / 2), productStates) ∈ layers (here / 2) :=
      mem_layers_iff.2 (Or.inr (Or.inl rfl))
    rcases Nat.mod_two_eq_zero_or_one here with even | odd
    · exact ⟨⟨_, here, 2⟩, ⟨here / 2, by omega, _, product, List.mem_cons_self ..,
        List.mem_cons_self .., by dsimp only; omega⟩, rfl⟩
    · exact ⟨⟨_, here, 3⟩, ⟨here / 2, by omega, _, product, List.mem_cons_self ..,
        by simp [productStates], by dsimp only; omega⟩, rfl⟩
  · rintro ⟨situation, ⟨operand, inside, layer, -, -, -, there⟩, rfl⟩
    rw [there]
    omega

/-- **The inventory:** the situations and calls at all operands. -/
def inventory (more : Nat) : Inventory table 0 (inputOf (ones more)) where
  situations := situations more
  nodup := nodup_situations more
  mem_iff _ := ⟨reached_of_mem_situations, mem_situations_of_reached⟩
  calls := calls more
  nodup_calls := nodup_calls more
  mem_calls_iff := mem_calls_iff more
  positions := 2 * more + 2
  lt_positions_iff := lt_positions_iff more

/-- **Sums of ones are recognized in linear space.** The run accepts behind the last one. -/
theorem exists_recognition {network : Network} (known : network.rule? 0 = some ⟨"S", 0, 1⟩)
    (isTable : network.moveTable = table) (more : Nat) :
    ∃ recognition, network.recognition 0 (ones more) = .ok recognition ∧
      recognition.accepting = some ⟨2 * more + 1, ⟨1, 0, emptyStack⟩⟩ ∧
        recognition.statistics =
          ⟨2 * more + 2, 27 * more + 31, 3 * more + 5, 27 * more + 31⟩ := by
  have length := length_ones more
  have last := reached_behind (Nat.le_refl more) (reached_front (Nat.le_refl more))
  have stops : (⟨none, 2 * more + 1, 1⟩ : Situation) ∈ situations more :=
    mem_situations_of_reached (last none (List.mem_cons_self ..)).2.1
  rw [← length] at stops
  obtain ⟨recognition, ran, accepting, statistics⟩ := Network.exists_recognition_of_stops known
    isTable (endMarker_not_mem_ones more) (inventory more) (by rw [length]; rfl) stops
  rw [length] at accepting
  refine ⟨recognition, ran, accepting, statistics.trans ?_⟩
  simp [inventory, length_situations, length_calls]

end Summing

end TransitionNetworks
