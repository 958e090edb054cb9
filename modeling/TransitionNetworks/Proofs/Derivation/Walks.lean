import TransitionNetworks.Derivation
import Mathlib.Algebra.Group.Nat.Defs

/-! # Walks back through provenance

A walk is a machine that takes one step after the other and keeps the callers still to come in a
list. What it does is told without the list by `Unwinds`: a place unwinds to the base of its call,
which is where the rule was entered or the run began, and leaves a forest of the tokens and calls in
between. `Unwinds.run` is the simulation: the walk from a place comes to its base with the same
callers pending and the events of the forest in front of those met before.

The walk is followed for `2 ^ (n + 1) - 1` steps with `n` places known (`derivation_eq`), which is
enough if the provenance of every place goes back to places of a smaller rank
(`ProvenanceTable.Ranked`): a place of rank `r` unwinds in less than `2 ^ (r + 1) - 1` steps. -/

namespace TransitionNetworks

/-- **Forests of calls.** The tokens consumed and the calls gone through, the last one outermost. A
call has the rule entered and the rule exited, which agree in what a run derives. -/
inductive Forest where
  /-- Nothing happened. -/
  | nil
  /-- The token at an index was consumed last. -/
  | token (before : Forest) (index : Nat)
  /-- A call was gone through last. -/
  | call (before : Forest) (entered : Nat) (inside : Forest) (exited : Nat)

/-- The events of a forest, first event first. -/
def Forest.events : Forest → List Event
  | nil => []
  | token before index => before.events ++ [.consume index]
  | call before entered inside exited =>
    before.events ++ .enter entered :: (inside.events ++ [.exit exited])

/-- The places from which a walk goes on behind a find, in the order in which it comes to them. -/
def Provenance.continuations (place : Place) : Provenance → List Place
  | seed => []
  | epsilon prev => [⟨place.position, prev⟩]
  | predict _ _ => []
  | complete stop caller _ => [⟨place.position, stop⟩, ⟨stop.origin, caller⟩]
  | scan prev _ =>
    match place.position with
    | 0 => []
    | position + 1 => [⟨position, prev⟩]

/-- **Ranked provenance.** Walks go on to places of a smaller rank. -/
def ProvenanceTable.Ranked (table : ProvenanceTable) (rank : Place → Nat) : Prop :=
  ∀ place why, table.find? place = some why →
    ∀ next ∈ why.continuations place, rank next < rank place

/-- **Unwinding.** Going back from a place to the base of its call, through what lies between. -/
inductive Unwinds (table : ProvenanceTable) : Place → Forest → Place → Prop
  /-- The run began at the place. -/
  | seed {place : Place} (here : table.find? place = some .seed) : Unwinds table place .nil place
  /-- A rule was entered at the place. -/
  | predict {place : Place} {prev : Item} {rule : Nat}
      (here : table.find? place = some (.predict prev rule)) : Unwinds table place .nil place
  /-- An epsilon step leaves nothing. -/
  | epsilon {position : Nat} {item prev : Item} {forest : Forest} {base : Place}
      (here : table.find? ⟨position, item⟩ = some (.epsilon prev))
      (back : Unwinds table ⟨position, prev⟩ forest base) :
      Unwinds table ⟨position, item⟩ forest base
  /-- A token consumed is left behind what lies in front of it. -/
  | scan {position index : Nat} {item prev : Item} {forest : Forest} {base : Place}
      (here : table.find? ⟨position + 1, item⟩ = some (.scan prev index))
      (back : Unwinds table ⟨position, prev⟩ forest base) :
      Unwinds table ⟨position + 1, item⟩ (.token forest index) base
  /-- A call is left with what lies between its stop and where its rule was entered, behind what
  lies in front of its caller. -/
  | complete {position entered exited : Nat} {item stop caller prev : Item}
      {before inside : Forest} {entry base : Place}
      (here : table.find? ⟨position, item⟩ = some (.complete stop caller exited))
      (through : Unwinds table ⟨position, stop⟩ inside entry)
      (enters : table.find? entry = some (.predict prev entered))
      (back : Unwinds table ⟨stop.origin, caller⟩ before base) :
      Unwinds table ⟨position, item⟩ (.call before entered inside exited) base

namespace Walk

variable {table : ProvenanceTable}

/-- At the seed a walk without pending callers is over. -/
theorem step_seed {place : Place} (here : table.find? place = some .seed) (events : List Event) :
    step table ⟨place, [], events⟩ = .done (.ok events) := by
  simp only [step, here]

/-- A walk steps back over an epsilon step without an event. -/
theorem step_epsilon {position : Nat} {item prev : Item}
    (here : table.find? ⟨position, item⟩ = some (.epsilon prev)) (pending : List Place)
    (events : List Event) :
    step table ⟨⟨position, item⟩, pending, events⟩ =
      .walking ⟨⟨position, prev⟩, pending, events⟩ := by
  simp only [step, here]

/-- Where a rule was entered a walk goes on from the caller kept last. -/
theorem step_predict {place caller : Place} {prev : Item} {rule : Nat}
    (here : table.find? place = some (.predict prev rule)) (pending : List Place)
    (events : List Event) :
    step table ⟨place, caller :: pending, events⟩ =
      .walking ⟨caller, pending, .enter rule :: events⟩ := by
  simp only [step, here]

/-- Behind a call a walk goes through the call and keeps the caller. -/
theorem step_complete {position rule : Nat} {item stop caller : Item}
    (here : table.find? ⟨position, item⟩ = some (.complete stop caller rule))
    (pending : List Place) (events : List Event) :
    step table ⟨⟨position, item⟩, pending, events⟩ =
      .walking ⟨⟨position, stop⟩, ⟨stop.origin, caller⟩ :: pending, .exit rule :: events⟩ := by
  simp only [step, here]

/-- A walk steps back over a scan with the token consumed. -/
theorem step_scan {position index : Nat} {item prev : Item}
    (here : table.find? ⟨position + 1, item⟩ = some (.scan prev index)) (pending : List Place)
    (events : List Event) :
    step table ⟨⟨position + 1, item⟩, pending, events⟩ =
      .walking ⟨⟨position, prev⟩, pending, .consume index :: events⟩ := by
  simp only [step, here]

/-- Make a number of steps, or as many as there are. -/
def run (table : ProvenanceTable) : Nat → Walk → WalkState
  | 0, walk => .walking walk
  | n + 1, walk =>
    match walk.step table with
    | .walking next => run table n next
    | .done result => .done result

/-- A run of steps is a run of the first and a run of the others. -/
theorem run_add (table : ProvenanceTable) (m n : Nat) (walk : Walk) :
    run table (m + n) walk =
      match run table m walk with
      | .walking next => run table n next
      | .done result => .done result := by
  induction m generalizing walk with
  | zero => rw [Nat.zero_add, run]
  | succ m ih =>
    rw [Nat.succ_add, run, run]
    cases walk.step table with
    | walking next => exact ih next
    | done result => rfl

/-- A run that goes on can be followed by another. -/
theorem run_trans {m n : Nat} {walk next : Walk} {last : WalkState}
    (first : run table m walk = .walking next) (second : run table n next = last) :
    run table (m + n) walk = last := by
  rw [run_add, first]
  exact second

/-- A run that is over stays so. -/
theorem run_of_le {m n : Nat} {walk : Walk} {result : DerivationResult}
    (ended : run table m walk = .done result) (more : m ≤ n) :
    run table n walk = .done result := by
  obtain ⟨rest, rfl⟩ := Nat.exists_eq_add_of_le more
  rw [run_add, ended]

/-- To advance is to run for a power of two. -/
theorem advance_eq_run (table : ProvenanceTable) (k : Nat) (walk : Walk) :
    advance table k walk = run table (2 ^ k) walk := by
  induction k generalizing walk with
  | zero =>
    rw [advance, Nat.pow_zero, run]
    cases walk.step table <;> rfl
  | succ k ih =>
    rw [advance, Nat.pow_succ, Nat.mul_two, run_add, ih]
    cases run table (2 ^ k) walk with
    | walking next => exact ih next
    | done result => rfl

/-- Rounds of growing length are one run. -/
theorem finish_eq_run (table : ProvenanceTable) (rounds k : Nat) (walk : Walk) :
    finish table rounds k walk =
      match run table ((2 ^ rounds - 1) * 2 ^ k) walk with
      | .walking _ => .error .endless
      | .done result => result := by
  induction rounds generalizing k walk with
  | zero =>
    rw [finish, Nat.pow_zero, Nat.sub_self, Nat.zero_mul, run]
  | succ rounds ih =>
    -- the first round has `2 ^ k` steps, and those behind it begin with twice as many
    have positive : 0 < 2 ^ rounds := Nat.two_pow_pos rounds
    have split : (2 ^ (rounds + 1) - 1) * 2 ^ k =
        2 ^ k + (2 ^ rounds - 1) * 2 ^ (k + 1) := by
      obtain ⟨more, equal⟩ := Nat.exists_eq_add_of_le positive
      rw [Nat.pow_succ 2 rounds, Nat.pow_succ 2 k, equal]
      have front : (0 + 1 + more) * 2 - 1 = 2 * more + 1 := by omega
      have back : 0 + 1 + more - 1 = more := by omega
      rw [front, back, Nat.add_mul, Nat.one_mul, Nat.add_comm, Nat.mul_comm 2 more,
        Nat.mul_assoc, Nat.mul_comm 2 (2 ^ k)]
    rw [finish, advance_eq_run, split, run_add]
    cases run table (2 ^ k) walk with
    | walking next => exact ih (k + 1) next
    | done result => rfl

end Walk

/-- A derivation is read off a run of less than `2 ^ (n + 1)` steps with `n` places known. -/
theorem ProvenanceTable.derivation_eq (table : ProvenanceTable) (place : Place) :
    table.derivation place =
      match Walk.run table (2 ^ (table.size + 1) - 1) (Walk.start place) with
      | .walking _ => .error .endless
      | .done result => result := by
  rw [ProvenanceTable.derivation, Walk.finish_eq_run, Nat.pow_zero, Nat.mul_one]

namespace Unwinds

variable {table : ProvenanceTable} {place base : Place} {forest : Forest}

/-- **Walks unwind.** The walk from a place comes to its base, with the callers that were pending
before and the events of the forest met last. -/
theorem run {rank : Place → Nat} (ranked : table.Ranked rank)
    (unwinds : Unwinds table place forest base) (pending : List Place) (events : List Event) :
    ∃ n, n + 2 ≤ 2 ^ (rank place + 1) ∧
      Walk.run table n ⟨place, pending, events⟩ =
        .walking ⟨base, pending, forest.events ++ events⟩ := by
  -- a place takes at most twice as many steps as the places it goes on to
  have twice : ∀ {next here : Place}, rank next < rank here →
      2 * 2 ^ (rank next + 1) ≤ 2 ^ (rank here + 1) := by
    intro next here less
    rw [Nat.mul_comm, ← Nat.pow_succ]
    exact Nat.pow_le_pow_right (by decide) (by omega)
  have start : ∀ place : Place, 0 + 2 ≤ 2 ^ (rank place + 1) := by
    intro place
    have positive := Nat.two_pow_pos (rank place)
    rw [Nat.pow_succ]
    omega
  induction unwinds generalizing pending events with
  | @seed place here => exact ⟨0, start place, rfl⟩
  | @predict place prev rule here => exact ⟨0, start place, rfl⟩
  | @epsilon position item prev forest base here back ih =>
    have less := twice (ranked _ _ here ⟨position, prev⟩ (List.mem_cons_self ..))
    obtain ⟨n, bound, goesOn⟩ := ih pending events
    refine ⟨n + 1, by omega, ?_⟩
    rw [Walk.run, Walk.step_epsilon here]
    exact goesOn
  | @scan position index item prev forest base here back ih =>
    have less := twice (ranked _ _ here ⟨position, prev⟩ (List.mem_cons_self ..))
    obtain ⟨n, bound, goesOn⟩ := ih pending (.consume index :: events)
    refine ⟨n + 1, by omega, ?_⟩
    rw [Walk.run, Walk.step_scan here, Forest.events, List.append_assoc]
    exact goesOn
  | @complete position entered exited item stop caller prev before inside entry base here through
      enters back ihThrough ihBack =>
    have lessStop := twice (ranked _ _ here ⟨position, stop⟩ (List.mem_cons_self ..))
    have lessCaller := twice (ranked _ _ here ⟨stop.origin, caller⟩
      (List.mem_cons_of_mem _ (List.mem_cons_self ..)))
    -- the walk goes back through the call, leaves it where the rule was entered, and goes on from
    -- the caller
    obtain ⟨m, boundThrough, goesThrough⟩ :=
      ihThrough (⟨stop.origin, caller⟩ :: pending) (.exit exited :: events)
    obtain ⟨n, boundBack, goesBack⟩ :=
      ihBack pending (.enter entered :: (inside.events ++ .exit exited :: events))
    refine ⟨(m + (n + 1)) + 1, by omega, ?_⟩
    rw [Walk.run, Walk.step_complete here]
    apply Walk.run_trans goesThrough
    rw [Walk.run, Walk.step_predict enters]
    simp only [Forest.events, List.append_assoc, List.cons_append, List.nil_append]
    exact goesBack

/-- **The derivation of a place** that unwinds to the seed is the list of the events in between. -/
theorem derivation {rank : Place → Nat} (ranked : table.Ranked rank)
    (unwinds : Unwinds table place forest base) (seed : table.find? base = some .seed)
    (bounded : rank place ≤ table.size) : table.derivation place = .ok forest.events := by
  obtain ⟨n, bound, goesBack⟩ := unwinds.run ranked [] []
  have ends : Walk.run table (n + 1) (Walk.start place) = .done (.ok forest.events) := by
    apply Walk.run_trans goesBack
    rw [Walk.run, Walk.step_seed seed, List.append_nil]
  -- the rank is at most the number of places known, for which the walk is followed
  have enough : n + 1 ≤ 2 ^ (table.size + 1) - 1 := by
    have grows : 2 ^ (rank place + 1) ≤ 2 ^ (table.size + 1) :=
      Nat.pow_le_pow_right (by decide) (by omega)
    omega
  rw [ProvenanceTable.derivation_eq, Walk.run_of_le ends enough]

end Unwinds

end TransitionNetworks
