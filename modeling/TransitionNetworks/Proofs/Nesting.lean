import TransitionNetworks.Grammar.Layout
import TransitionNetworks.Grammar.Samples
import TransitionNetworks.Proofs.Run.Situations

/-! # Nested parentheses

On an atom inside `depth` pairs of parentheses the calls of the sample `nestedParens` are nested as
the parentheses are: level `level` is the call made behind as many opening parentheses, and level
`0` is outside all calls. The run is in every state of a level once, at a position that goes up with
the level in front of the atom and down behind it (`Nesting.position`). So each level in front of
the innermost one has seven situations, and the innermost one has five. -/

namespace TransitionNetworks

namespace Nesting

open Samples

/-- An atom inside pairs of parentheses. -/
def nested (depth : Nat) : List Token :=
  List.replicate depth openParen ++ atom :: List.replicate depth closeParen

/-- The moves of the network. -/
def table : MoveTable where
  epsilons := [(0, 2), (0, 6), (5, 1), (7, 1)]
  terminals :=
    [(2, .oneOf (.ofList [openParen]), 3), (4, .oneOf (.ofList [closeParen]), 5),
      (6, .oneOf (.ofList [atom]), 7)]
  calls := [(3, 0, 4, 0)]
  stops := [(0, 1)]

/-- The sample has a network, with these moves. -/
theorem exists_network :
    ∃ network, nestedParens.toNetwork = .ok network ∧ network.rule? 0 = some ⟨"E", 0, 1⟩ ∧
      network.moveTable = table :=
  Network.exists_of_moveTable (by decide +kernel)

/-! ## The input -/

/-- Nested parentheses have no end marker in them. -/
theorem endMarker_not_mem_nested (depth : Nat) : Token.endMarker ∉ nested depth := by
  simp [nested, Token.endMarker, openParen, atom, closeParen]

/-- Every further pair of parentheses takes two tokens. -/
@[simp] theorem length_nested (depth : Nat) : (nested depth).length = 2 * depth + 1 := by
  rw [nested, List.length_append, List.length_cons, List.length_replicate, List.length_replicate]
  omega

/-- What is read in front of the atom, at the atom and behind it. -/
theorem getElem?_inputOf_nested (depth position : Nat) :
    (inputOf (nested depth))[position]? =
      if position < depth then some openParen
      else if position = depth then some atom
      else if position < 2 * depth + 1 then some closeParen
      else if position = 2 * depth + 1 then some Token.endMarker
      else none := by
  rw [inputOf, beforeEndMarker_eq_self (endMarker_not_mem_nested depth), nested,
    List.append_assoc, List.cons_append]
  rcases Nat.lt_trichotomy position depth with front | rfl | behind
  · rw [List.getElem?_append_left (by simpa using front)]
    simp [front]
  · rw [List.getElem?_append_right (by simp)]
    simp
  · obtain ⟨further, rfl⟩ := Nat.exists_eq_add_of_lt behind
    have rest : depth + further + 1 - depth = further + 1 := by omega
    rw [List.getElem?_append_right (by simp; omega), List.length_replicate, rest,
      List.getElem?_cons_succ, List.getElem?_append, List.getElem?_replicate,
      List.getElem?_singleton, List.length_replicate]
    split_ifs <;> first | rfl | omega

/-- Opening parentheses are read in front of the atom. -/
theorem read_openParen_iff (depth position : Nat) :
    (inputOf (nested depth))[position]? = some openParen ↔ position < depth := by
  rw [getElem?_inputOf_nested]
  split_ifs <;> simp [openParen, atom, closeParen, Token.endMarker] <;> omega

/-- The atom is read behind as many opening parentheses as it is deep. -/
theorem read_atom_iff (depth position : Nat) :
    (inputOf (nested depth))[position]? = some atom ↔ position = depth := by
  rw [getElem?_inputOf_nested]
  split_ifs <;> simp [openParen, atom, closeParen, Token.endMarker] <;> omega

/-- Closing parentheses are read behind the atom. -/
theorem read_closeParen_iff (depth position : Nat) :
    (inputOf (nested depth))[position]? = some closeParen ↔
      depth < position ∧ position ≤ 2 * depth := by
  rw [getElem?_inputOf_nested]
  split_ifs <;> simp [openParen, atom, closeParen, Token.endMarker] <;> omega

/-! ## The levels -/

/-- The call of a level. -/
def call : Nat → Option Frame
  | 0 => none
  | level + 1 => some ⟨4, 0, level + 1⟩

/-- The states in which a run is at a level. -/
def states (depth level : Nat) : List Nat :=
  if level < depth then [0, 2, 6, 3, 4, 5, 1] else [0, 2, 6, 7, 1]

/-- Where a run is in a state of a level. -/
def position (depth level : Nat) : Nat → Nat
  | 0 | 2 | 6 => level
  | 3 | 7 => level + 1
  | 4 => 2 * depth - level
  | _ => 2 * depth + 1 - level

/-- The situations of all levels. -/
def situations (depth : Nat) : List Situation :=
  (List.range (depth + 1)).flatMap fun level =>
    (states depth level).map fun state => ⟨call level, position depth level state, state⟩

/-- Levels have different calls. -/
theorem call_injective : Function.Injective call := by
  intro level other same
  cases level <;> cases other <;> simp_all [call]

/-- Four states are those of every level, three those of every level in front of the innermost one,
and one is that of the innermost one. -/
theorem mem_states_iff (depth level state : Nat) :
    state ∈ states depth level ↔
      state ∈ [0, 2, 6, 1] ∨ level < depth ∧ state ∈ [3, 4, 5] ∨ depth ≤ level ∧ state = 7 := by
  unfold states
  split_ifs with outer <;> simp [outer] <;> omega

/-- A situation is that of a state of a level. -/
theorem mem_situations_iff (depth : Nat) (situation : Situation) :
    situation ∈ situations depth ↔ ∃ level ≤ depth, situation.call = call level ∧
      situation.state ∈ states depth level ∧
        situation.position = position depth level situation.state := by
  obtain ⟨_, _, _⟩ := situation
  simp only [situations, List.mem_flatMap, List.mem_range, List.mem_map, Situation.mk.injEq,
    Nat.lt_succ_iff]
  constructor
  · rintro ⟨level, inside, state, listed, rfl, rfl, rfl⟩
    exact ⟨level, inside, rfl, listed, rfl⟩
  · rintro ⟨level, inside, rfl, listed, rfl⟩
    exact ⟨level, inside, _, listed, rfl, rfl, rfl⟩

/-- The situations are all different. -/
theorem nodup_situations (depth : Nat) : (situations depth).Nodup := by
  refine List.nodup_flatMap.2 ⟨?_, ?_⟩
  · intro level _
    refine List.Nodup.of_map Situation.state ?_
    rw [List.map_map, show Situation.state ∘ (fun state =>
      (⟨call level, position depth level state, state⟩ : Situation)) = id from rfl, List.map_id]
    unfold states
    split_ifs <;> decide
  · refine List.nodup_range.imp ?_
    intro level other different situation listed listed'
    obtain ⟨_, -, rfl⟩ := List.mem_map.1 listed
    obtain ⟨_, -, same⟩ := List.mem_map.1 listed'
    exact different (call_injective (Situation.mk.inj same).1.symm)

/-- Seven situations for each level in front of the innermost one, and five for that. -/
theorem length_situations (depth : Nat) : (situations depth).length = 7 * depth + 5 := by
  have outer : ∀ level ∈ List.range depth, (states depth level).length = 7 := by
    intro level inside
    rw [states, if_pos (List.mem_range.1 inside)]
    rfl
  have innermost : (states depth depth).length = 5 := by
    rw [states, if_neg (Nat.lt_irrefl depth)]
    rfl
  rw [situations, List.length_flatMap]
  simp only [List.length_map]
  rw [List.range_succ, List.map_append, List.sum_append, List.map_congr_left outer]
  simp [innermost]
  omega

/-! ## What is reached -/

/-- A situation is reached on an atom inside pairs of parentheses. -/
abbrev Reached (depth : Nat) : Situation → Prop := Reachable table 0 (inputOf (nested depth))

section

variable {depth level : Nat} {situation : Situation}

/-- A transition without a token stays at its level and where it is. -/
theorem epsilon_mem {state target : Nat} (inside : level ≤ depth)
    (listed : state ∈ states depth level) (move : (state, target) ∈ table.epsilons) :
    target ∈ states depth level ∧ position depth level target = position depth level state := by
  rw [mem_states_iff] at listed ⊢
  simp only [table, List.mem_cons, Prod.mk.injEq, List.not_mem_nil, or_false] at move
  rcases move with ⟨rfl, rfl⟩ | ⟨rfl, rfl⟩ | ⟨rfl, rfl⟩ | ⟨rfl, rfl⟩
  · exact ⟨by simp, rfl⟩
  · exact ⟨by simp, rfl⟩
  · exact ⟨by simp, rfl⟩
  · -- the innermost level stops where its atom ends
    have innermost : depth ≤ level := by simpa using listed
    refine ⟨by simp, ?_⟩
    simp only [position]
    omega

/-- A transition over a token stays at its level and goes on to the next token. -/
theorem terminal_mem {state target : Nat} {matcher : Matcher} {token : Token}
    (listed : state ∈ states depth level) (move : (state, matcher, target) ∈ table.terminals)
    (read : (inputOf (nested depth))[position depth level state]? = some token)
    (accepts : matcher.accepts token = true) :
    target ∈ states depth level ∧
      position depth level target = position depth level state + 1 := by
  rw [mem_states_iff] at listed ⊢
  simp only [table, List.mem_cons, Prod.mk.injEq, List.not_mem_nil, or_false] at move
  rcases move with ⟨rfl, rfl, rfl⟩ | ⟨rfl, rfl, rfl⟩ | ⟨rfl, rfl, rfl⟩
  · obtain rfl : token = openParen := by simpa using accepts
    have outer : level < depth := (read_openParen_iff ..).1 read
    exact ⟨by simp [outer], rfl⟩
  · obtain rfl : token = closeParen := by simpa using accepts
    have outer : level < depth := by simpa using listed
    refine ⟨by simp [outer], ?_⟩
    simp only [position]
    omega
  · obtain rfl : token = atom := by simpa using accepts
    have innermost : level = depth := (read_atom_iff ..).1 read
    exact ⟨by simp [innermost], rfl⟩

/-- The call of a level was made at the level in front of it. -/
theorem eq_succ_of_call_eq {inner follow rule : Nat}
    (same : some ⟨follow, rule, level + 1⟩ = call inner) : inner = level + 1 := by
  cases inner with
  | zero => cases same
  | succ inner =>
    cases same
    rfl

/-- Nothing but the situations of the levels is reached. -/
theorem mem_situations_of_reached (reached : Reached depth situation) :
    situation ∈ situations depth := by
  simp only [mem_situations_iff]
  induction reached with
  | seed => exact ⟨0, Nat.zero_le depth, rfl, (mem_states_iff ..).2 (by simp), rfl⟩
  | epsilon _ move ih =>
    obtain ⟨level, inside, isCall, listed, here⟩ := ih
    obtain ⟨isTarget, stays⟩ := epsilon_mem inside listed move
    exact ⟨level, inside, isCall, isTarget, here.trans stays.symm⟩
  | scan _ move read accepts ih =>
    obtain ⟨level, inside, isCall, listed, here⟩ := ih
    dsimp only at here ⊢
    rw [here] at read ⊢
    obtain ⟨isTarget, next⟩ := terminal_mem listed move read accepts
    exact ⟨level, inside, isCall, isTarget, next.symm⟩
  | predict _ move ih =>
    obtain ⟨level, inside, isCall, listed, here⟩ := ih
    simp only [table, List.mem_cons, Prod.mk.injEq, List.not_mem_nil, or_false] at move
    obtain ⟨rfl, rfl, rfl, rfl⟩ := move
    have outer : level < depth := by simpa using (mem_states_iff ..).1 listed
    dsimp only at here
    subst here
    exact ⟨level + 1, outer, rfl, (mem_states_iff ..).2 (by simp), rfl⟩
  | complete _ stops _ move ihStopped ihCalled =>
    obtain ⟨inner, inside, isCall, listed, here⟩ := ihStopped
    obtain ⟨level, outside, isCall', listed', here'⟩ := ihCalled
    simp only [table, List.mem_cons, Prod.mk.injEq, List.not_mem_nil, or_false] at move stops
    obtain ⟨rfl, rfl, rfl, rfl⟩ := move
    obtain ⟨-, rfl⟩ := stops
    have outer : level < depth := by simpa using (mem_states_iff ..).1 listed'
    dsimp only at isCall here here' ⊢
    subst here'
    -- the call was made at the level in front of the one that stops
    obtain rfl : inner = level + 1 := eq_succ_of_call_eq isCall
    refine ⟨level, outside, isCall', (mem_states_iff ..).2 (by simp [outer]), ?_⟩
    rw [here]
    simp only [position]
    omega

/-- A level in front of the innermost one opens a parenthesis and calls the next one. -/
theorem reached_next (outer : level < depth) (entered : Reached depth ⟨call level, level, 0⟩) :
    Reached depth ⟨call level, level + 1, 3⟩ ∧
      Reached depth ⟨call (level + 1), level + 1, 0⟩ := by
  have front : Reached depth ⟨call level, level, 2⟩ := entered.epsilon (by decide)
  have opened : Reached depth ⟨call level, level + 1, 3⟩ :=
    front.scan_token ((read_openParen_iff ..).2 outer) (by simp [table])
  exact ⟨opened, opened.predict (List.mem_singleton_self _)⟩

/-- All levels are entered, one from the other. -/
theorem reached_entry (inside : level ≤ depth) : Reached depth ⟨call level, level, 0⟩ := by
  induction level with
  | zero => exact .seed
  | succ level ih => exact (reached_next inside (ih (Nat.le_of_lt inside))).2

/-- The innermost level stops behind the atom. -/
theorem reached_atom (depth : Nat) :
    Reached depth ⟨call depth, depth + 1, 7⟩ ∧ Reached depth ⟨call depth, depth + 1, 1⟩ := by
  have front : Reached depth ⟨call depth, depth, 6⟩ :=
    (reached_entry (Nat.le_refl depth)).epsilon (by decide)
  have behind : Reached depth ⟨call depth, depth + 1, 7⟩ :=
    front.scan_token ((read_atom_iff ..).2 rfl) (by simp [table])
  exact ⟨behind, behind.epsilon (by decide)⟩

/-- A level in front of the innermost one goes on behind the next one, where it closes the
parenthesis and stops. -/
theorem reached_back (outer : level < depth)
    (stopped : Reached depth ⟨call (level + 1), 2 * depth - level, 1⟩) :
    Reached depth ⟨call level, 2 * depth - level, 4⟩ ∧
      Reached depth ⟨call level, 2 * depth + 1 - level, 5⟩ ∧
        Reached depth ⟨call level, 2 * depth + 1 - level, 1⟩ := by
  have called := (reached_next outer (reached_entry (Nat.le_of_lt outer))).1
  have front : Reached depth ⟨call level, 2 * depth - level, 4⟩ :=
    stopped.complete (List.mem_singleton_self _) called (List.mem_singleton_self _)
  have read := (read_closeParen_iff depth (2 * depth - level)).2 (by omega)
  have behind : Reached depth ⟨call level, 2 * depth - level + 1, 5⟩ :=
    front.scan_token read (by simp [table])
  rw [show 2 * depth - level + 1 = 2 * depth + 1 - level by omega] at behind
  exact ⟨front, behind, behind.epsilon (by decide)⟩

/-- All levels stop, one in the other. -/
theorem reached_exit (inside : level ≤ depth) :
    Reached depth ⟨call level, 2 * depth + 1 - level, 1⟩ := by
  induction inside using Nat.decreasingInduction with
  | self =>
    rw [show 2 * depth + 1 - depth = depth + 1 by omega]
    exact (reached_atom depth).2
  | of_succ level outer ih =>
    rw [Nat.add_sub_add_right] at ih
    exact (reached_back outer ih).2.2

/-- The situations of the levels are reached. -/
theorem reached_of_mem_situations (listed : situation ∈ situations depth) :
    Reached depth situation := by
  obtain ⟨_, _, state⟩ := situation
  obtain ⟨level, inside, isCall, inLevel, here⟩ := (mem_situations_iff ..).1 listed
  dsimp only at isCall inLevel here
  subst isCall here
  have entered := reached_entry inside
  rcases (mem_states_iff depth level state).1 inLevel with
    always | ⟨outer, between⟩ | ⟨innermost, rfl⟩
  · simp only [List.mem_cons, List.not_mem_nil, or_false] at always
    rcases always with rfl | rfl | rfl | rfl
    · exact entered
    · exact entered.epsilon (by decide)
    · exact entered.epsilon (by decide)
    · exact reached_exit inside
  · have stopped : Reached depth ⟨call (level + 1), 2 * depth + 1 - (level + 1), 1⟩ :=
      reached_exit outer
    rw [Nat.add_sub_add_right] at stopped
    simp only [List.mem_cons, List.not_mem_nil, or_false] at between
    rcases between with rfl | rfl | rfl
    · exact (reached_next outer entered).1
    · exact (reached_back outer stopped).1
    · exact (reached_back outer stopped).2.1
  · obtain rfl : level = depth := Nat.le_antisymm inside innermost
    exact (reached_atom level).1

end

/-- Every level is entered by its call, and nothing is reached in another one. -/
theorem mem_calls_iff (depth : Nat) (isCall : Option Frame) :
    isCall ∈ (List.range (depth + 1)).map call ↔
      ∃ situation ∈ situations depth, situation.call = isCall := by
  simp only [List.mem_map, List.mem_range, Nat.lt_succ_iff, mem_situations_iff]
  constructor
  · rintro ⟨level, inside, rfl⟩
    exact ⟨⟨call level, level, 0⟩, ⟨level, inside, rfl, by simp [mem_states_iff], rfl⟩, rfl⟩
  · rintro ⟨situation, ⟨level, inside, isCall, -⟩, rfl⟩
    exact ⟨level, inside, isCall.symm⟩

/-- Something is reached up to the position behind the last parenthesis. -/
theorem lt_positions_iff (depth here : Nat) :
    here < 2 * depth + 2 ↔ ∃ situation ∈ situations depth, situation.position = here := by
  simp only [mem_situations_iff, mem_states_iff]
  constructor
  · intro inside
    -- levels are entered up to the atom, and left behind it
    by_cases front : here ≤ depth
    · exact ⟨⟨call here, here, 0⟩, ⟨here, front, rfl, by simp, rfl⟩, rfl⟩
    · refine ⟨⟨call (2 * depth + 1 - here), here, 1⟩,
        ⟨2 * depth + 1 - here, by omega, rfl, by simp, ?_⟩, rfl⟩
      simp only [position]
      omega
  · rintro ⟨situation, ⟨level, inside, -, listed, there⟩, rfl⟩
    rw [there]
    unfold position
    split <;> omega

/-- **The inventory:** the situations of all levels, and a call for each level. -/
def inventory (depth : Nat) : Inventory table 0 (inputOf (nested depth)) where
  situations := situations depth
  nodup := nodup_situations depth
  mem_iff _ := ⟨reached_of_mem_situations, mem_situations_of_reached⟩
  calls := (List.range (depth + 1)).map call
  nodup_calls := List.nodup_range.map call_injective
  mem_calls_iff := mem_calls_iff depth
  positions := 2 * depth + 2
  lt_positions_iff := lt_positions_iff depth

/-- **Nested parentheses are recognized in linear space.** The run accepts behind the last one. -/
theorem exists_recognition {network : Network} (known : network.rule? 0 = some ⟨"E", 0, 1⟩)
    (isTable : network.moveTable = table) (depth : Nat) :
    ∃ recognition, network.recognition 0 (nested depth) = .ok recognition ∧
      recognition.accepting = some ⟨2 * depth + 1, ⟨1, 0, emptyStack⟩⟩ ∧
        recognition.statistics = ⟨2 * depth + 2, 7 * depth + 5, depth + 1, 7 * depth + 5⟩ := by
  have length := length_nested depth
  have stops : (⟨none, 2 * depth + 1, 1⟩ : Situation) ∈ situations depth :=
    mem_situations_of_reached (reached_exit (Nat.zero_le depth))
  rw [← length] at stops
  obtain ⟨recognition, ran, accepting, statistics⟩ := Network.exists_recognition_of_stops known
    isTable (endMarker_not_mem_nested depth) (inventory depth) (by rw [length]; rfl) stops
  rw [length] at accepting
  refine ⟨recognition, ran, accepting, statistics.trans ?_⟩
  simp [inventory, length_situations]

end Nesting

end TransitionNetworks
