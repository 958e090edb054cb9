import Mathlib.Data.Finset.Card
import TransitionNetworks.Proofs.Derivation.Walks

/-! # Walks through ranked provenance

Nothing is known here of how a table came about but that it is ranked: walks go on to places of a
smaller rank. A walk puts one place in the stead of two where it goes through a call, so it is not
the rank of its place that shrinks along the way. But what a place derives can be said by recursion
on the rank, without the list of callers (`ProvenanceTable.Ranked.trace`), and the walk from a place
comes to what the place derives (`ProvenanceTable.Ranked.run_trace`): it breaks off if the place
derives nothing, and otherwise goes on from the caller kept last, or is over if there is none.

How many steps this takes is bounded by the rank, and a table that is ranked at all has a rank no
larger than the number of places known (`ProvenanceTable.Ranked.exists_le_size`). -/

namespace TransitionNetworks

variable {table : ProvenanceTable} {rank height : Place → Nat} {place : Place}

namespace ProvenanceTable

/-! ## Ranks -/

/-- Nothing is known, so there is nothing to rank. -/
theorem Ranked.empty (rank : Place → Nat) :
    Ranked (Registry.empty : ProvenanceTable) rank := by
  intro place why here
  rw [Registry.find?_empty] at here
  cases here

/-- A table stays ranked if what is recorded goes back to places of a smaller rank. -/
theorem Ranked.record (ranked : table.Ranked rank) {why : Provenance}
    (back : ∀ next ∈ why.continuations place, rank next < rank place) :
    Ranked (Registry.record place why table) rank := by
  intro other why' here
  by_cases same : place = other
  · subst same
    rw [Registry.find?_record_self] at here
    cases known : table.find? place with
    | none =>
      rw [known] at here
      obtain rfl : why = why' := Option.some.inj here
      exact back
    | some first =>
      rw [known] at here
      obtain rfl : first = why' := Option.some.inj here
      exact ranked place first known
  · rw [Registry.find?_record_of_ne table why same] at here
    exact ranked other why' here

/-- The places whose provenance is known. -/
def places (table : ProvenanceTable) : Finset Place := table.entries.keys.toFinset

/-- The places of a table are those with a provenance. -/
theorem mem_places : place ∈ table.places ↔ (table.find? place).isSome := by
  rw [places, List.mem_toFinset, Std.ExtTreeMap.mem_keys, ← Registry.contains_eq_isSome]
  exact Std.ExtTreeMap.contains_iff_mem.symm

/-- A table has at most as many places as entries. -/
theorem card_places_le (table : ProvenanceTable) : table.places.card ≤ table.size :=
  (List.toFinset_card_le _).trans_eq Std.ExtTreeMap.length_keys

/-- The places known that a walk from a place can come to as far as ranks tell, the place among
them. -/
def reach (table : ProvenanceTable) (rank : Place → Nat) (place : Place) : Finset Place :=
  table.places.filter fun other => other = place ∨ rank other < rank place

/-- **Bounded ranks.** If a table is ranked, then by numbers up to the number of places known. -/
theorem Ranked.exists_le_size (ranked : table.Ranked rank) :
    ∃ height, table.Ranked height ∧ ∀ place, height place ≤ table.size := by
  refine ⟨fun place => (table.reach rank place).card, fun place why here next goesOn => ?_,
    fun place => (Finset.card_filter_le _ _).trans table.card_places_le⟩
  have less := ranked place why here next goesOn
  have known : place ∈ table.places := by
    rw [mem_places, here]
    rfl
  -- a place is within its own reach, but not within that of the places it goes on to
  refine Finset.card_lt_card
    (Finset.ssubset_iff_subset_ne.2 ⟨fun other within => ?_, fun same => ?_⟩)
  · rw [reach, Finset.mem_filter] at within ⊢
    refine ⟨within.1, Or.inr ?_⟩
    obtain rfl | below := within.2
    · exact less
    · exact below.trans less
  · have own : place ∈ table.reach rank place := Finset.mem_filter.2 ⟨known, Or.inl rfl⟩
    rw [← same, reach, Finset.mem_filter] at own
    obtain rfl | below := own.2
    · exact lt_irrefl _ less
    · exact lt_asymm less below

/-! ## What a place derives -/

/-- **What a place derives** inside a number of calls: all that happened since the innermost of
them was entered, or since the run began if there is none. Behind a call these are the events in
front of the caller, then those of the call up to its stop, then the exit. Nothing is derived if the
innermost call has no beginning, if a rule is entered outside all calls, if a token is consumed in
front of the first position, or if the provenance of a place on the way is not known. -/
def Ranked.trace (ranked : table.Ranked rank) (depth : Nat) : Place → DerivationResult
  | ⟨position, item⟩ =>
    match here : table.find? ⟨position, item⟩ with
    | none => .error (.missingProvenance ⟨position, item⟩)
    | some .seed => if depth = 0 then .ok [] else .error (.pendingCalls depth)
    | some (.epsilon prev) => ranked.trace depth ⟨position, prev⟩
    | some (.predict _ rule) =>
      if depth = 0 then .error (.unbalancedReturn position) else .ok [.enter rule]
    | some (.complete stop caller rule) => do
      let inside ← ranked.trace (depth + 1) ⟨position, stop⟩
      let before ← ranked.trace depth ⟨stop.origin, caller⟩
      return before ++ inside ++ [.exit rule]
    | some (.scan prev tokenIndex) =>
      match position with
      | 0 => .error (.scanAtStart item)
      | position + 1 => do
        let before ← ranked.trace depth ⟨position, prev⟩
        return before ++ [.consume tokenIndex]
  termination_by place => rank place
  decreasing_by
    · exact ranked _ _ here _ (List.mem_cons_self ..)
    · exact ranked _ _ here _ (List.mem_cons_self ..)
    · exact ranked _ _ here _ (List.mem_cons_of_mem _ (List.mem_cons_self ..))
    · exact ranked _ _ here _ (List.mem_cons_self ..)

namespace Ranked

variable (ranked : table.Ranked rank) (depth : Nat) {position rule tokenIndex : Nat}
  {item prev stop caller : Item}

/-- A place without a provenance has no trace. -/
theorem trace_of_none (here : table.find? place = none) :
    ranked.trace depth place = .error (.missingProvenance place) := by
  rw [trace]
  split <;> simp_all

/-- Outside all calls a trace begins at a seed, and inside calls none does. -/
theorem trace_seed (here : table.find? place = some .seed) :
    ranked.trace depth place = if depth = 0 then .ok [] else .error (.pendingCalls depth) := by
  rw [trace]
  split <;> simp_all

/-- An epsilon step leaves no mark in a trace. -/
theorem trace_epsilon (here : table.find? ⟨position, item⟩ = some (.epsilon prev)) :
    ranked.trace depth ⟨position, item⟩ = ranked.trace depth ⟨position, prev⟩ := by
  rw [trace]
  split <;> simp_all

/-- Inside a call a trace begins where the rule is entered, and outside all calls none does. -/
theorem trace_predict (here : table.find? place = some (.predict prev rule)) :
    ranked.trace depth place =
      if depth = 0 then .error (.unbalancedReturn place.position) else .ok [.enter rule] := by
  rw [trace]
  split <;> simp_all

/-- The trace to a completion is that to the caller, then that to the stop, which is one call
further in, and the rule is left. -/
theorem trace_complete (here : table.find? ⟨position, item⟩ = some (.complete stop caller rule)) :
    ranked.trace depth ⟨position, item⟩ = do
      let inside ← ranked.trace (depth + 1) ⟨position, stop⟩
      let before ← ranked.trace depth ⟨stop.origin, caller⟩
      return before ++ inside ++ [.exit rule] := by
  rw [trace]
  split <;> simp_all

/-- No trace comes to a scan in front of the first position. -/
theorem trace_scanAtStart (here : table.find? ⟨0, item⟩ = some (.scan prev tokenIndex)) :
    ranked.trace depth ⟨0, item⟩ = .error (.scanAtStart item) := by
  rw [trace]
  split <;> simp_all

/-- The trace to a scan is that to the item in front of the token, and the token is consumed. -/
theorem trace_scan (here : table.find? ⟨position + 1, item⟩ = some (.scan prev tokenIndex)) :
    ranked.trace depth ⟨position + 1, item⟩ = do
      let before ← ranked.trace depth ⟨position, prev⟩
      return before ++ [.consume tokenIndex] := by
  rw [trace]
  split <;> simp_all

end Ranked

end ProvenanceTable

/-! ## Walks come to what places derive -/

namespace Walk

variable {n : Nat} {walk next : Walk} {last : WalkState}

/-- A step that goes on begins a run. -/
theorem run_of_step (first : walk.step table = .walking next) (rest : run table n next = last) :
    run table (n + 1) walk = last := by
  rw [run, first]
  exact rest

/-- One step is a run. -/
theorem run_one (table : ProvenanceTable) (walk : Walk) :
    run table 1 walk = walk.step table := by
  rw [run]
  cases walk.step table <;> rfl

/-- How a walk stands once it has what its place derives: it breaks off, goes on from the caller
kept last, or is over. -/
def resume (pending : List Place) (events : List Event) : DerivationResult → WalkState
  | .error fault => .done (.error fault)
  | .ok derived =>
    match pending with
    | [] => .done (.ok (derived ++ events))
    | caller :: outer => .walking ⟨caller, outer, derived ++ events⟩

/-- Events derived last stand behind those derived in front of them. -/
theorem resume_bind (pending : List Place) (events derived : List Event)
    (result : DerivationResult) :
    resume pending events (do let before ← result; return before ++ derived) =
      resume pending (derived ++ events) result := by
  cases result with
  | error fault => rfl
  | ok before =>
    change resume pending events (.ok (before ++ derived)) = _
    cases pending <;> simp only [resume, List.append_assoc]

end Walk

namespace ProvenanceTable

/-- **The walk from a place comes to what the place derives**, whatever callers are pending and
whatever was met before. -/
theorem Ranked.run_trace (ranked : table.Ranked rank) (tall : table.Ranked height) (place : Place)
    (pending : List Place) (events : List Event) :
    ∃ n, n + 1 ≤ 2 ^ (height place + 1) ∧
      Walk.run table n ⟨place, pending, events⟩ =
        Walk.resume pending events (ranked.trace pending.length place) := by
  -- a place takes at most twice as many steps as the places it goes on to
  have twice : ∀ {next here : Place}, height next < height here →
      2 * 2 ^ (height next + 1) ≤ 2 ^ (height here + 1) := by
    intro next here less
    rw [Nat.mul_comm, ← Nat.pow_succ]
    exact Nat.pow_le_pow_right (by decide) (by omega)
  have start : ∀ place : Place, 1 + 1 ≤ 2 ^ (height place + 1) := by
    intro place
    have positive := Nat.two_pow_pos (height place)
    rw [Nat.pow_succ]
    omega
  induction order : rank place using Nat.strongRecOn generalizing place pending events with
  | ind order ih =>
  subst order
  obtain ⟨position, item⟩ := place
  cases here : table.find? ⟨position, item⟩ with
  | none =>
    refine ⟨1, start _, ?_⟩
    rw [Walk.run_one, ranked.trace_of_none _ here]
    simp only [Walk.step, here, Walk.resume]
  | some why =>
  have lower := ranked _ _ here
  have shorter := fun next goesOn => twice (tall _ _ here next goesOn)
  cases why with
  | seed =>
    refine ⟨1, start _, ?_⟩
    rw [Walk.run_one, ranked.trace_seed _ here]
    cases pending <;> simp [Walk.step, here, Walk.resume]
  | predict prev rule =>
    refine ⟨1, start _, ?_⟩
    rw [Walk.run_one, ranked.trace_predict _ here]
    cases pending <;> simp [Walk.step, here, Walk.resume]
  | epsilon prev =>
    have isNext := List.mem_cons_self (a := Place.mk position prev) (l := [])
    obtain ⟨n, bound, comes⟩ := ih _ (lower _ isNext) _ pending events rfl
    have less := shorter _ isNext
    refine ⟨n + 1, by omega, ?_⟩
    rw [ranked.trace_epsilon _ here]
    exact Walk.run_of_step (Walk.step_epsilon here pending events) comes
  | complete stop caller rule =>
    have isStop := List.mem_cons_self (a := Place.mk position stop) (l := [⟨stop.origin, caller⟩])
    have isCaller := List.mem_cons_of_mem (Place.mk position stop)
      (List.mem_cons_self (a := Place.mk stop.origin caller) (l := []))
    have lessStop := shorter _ isStop
    have lessCaller := shorter _ isCaller
    -- the walk goes back through the call first, and keeps the caller for later
    obtain ⟨m, boundStop, through⟩ := ih _ (lower _ isStop) _ (⟨stop.origin, caller⟩ :: pending)
      (.exit rule :: events) rfl
    have enters := Walk.step_complete here pending events
    rw [List.length_cons] at through
    rw [ranked.trace_complete _ here]
    cases derived : ranked.trace (pending.length + 1) ⟨position, stop⟩ with
    | error fault =>
      rw [derived] at through
      exact ⟨m + 1, by omega, Walk.run_of_step enters through⟩
    | ok inside =>
      rw [derived] at through
      obtain ⟨n, boundCaller, back⟩ := ih _ (lower _ isCaller) _ pending
        (inside ++ .exit rule :: events) rfl
      refine ⟨m + n + 1, by omega, Walk.run_of_step enters (Walk.run_trans through ?_)⟩
      rw [back]
      change _ = Walk.resume pending events
        (do let before ← ranked.trace pending.length ⟨stop.origin, caller⟩
            return before ++ inside ++ [.exit rule])
      simp only [List.append_assoc, Walk.resume_bind, List.cons_append, List.nil_append]
  | scan prev tokenIndex =>
    cases position with
    | zero =>
      refine ⟨1, start _, ?_⟩
      rw [Walk.run_one, ranked.trace_scanAtStart _ here]
      simp only [Walk.step, here, Walk.resume]
    | succ position =>
      have isNext := List.mem_cons_self (a := Place.mk position prev) (l := [])
      obtain ⟨n, bound, comes⟩ := ih _ (lower _ isNext) _ pending (.consume tokenIndex :: events)
        rfl
      have less := shorter _ isNext
      refine ⟨n + 1, by omega, ?_⟩
      rw [ranked.trace_scan _ here, Walk.resume_bind]
      exact Walk.run_of_step (Walk.step_scan here pending events) comes

/-- The walk from a place outside all calls ends with what the place derives, within as many steps
as it is followed. -/
theorem Ranked.run_start (ranked : table.Ranked rank) (place : Place) :
    ∃ n, n ≤ 2 ^ (table.size + 1) - 1 ∧
      Walk.run table n (Walk.start place) = .done (ranked.trace 0 place) := by
  obtain ⟨height, tall, bounded⟩ := ranked.exists_le_size
  obtain ⟨n, bound, comes⟩ := ranked.run_trace tall place [] []
  have grows : 2 ^ (height place + 1) ≤ 2 ^ (table.size + 1) :=
    Nat.pow_le_pow_right (by decide) (Nat.succ_le_succ (bounded place))
  refine ⟨n, by omega, comes.trans ?_⟩
  rw [List.length_nil]
  cases ranked.trace 0 place with
  | error fault => rfl
  | ok events => rw [Walk.resume, List.append_nil]

/-- **A derivation is what its place derives.** -/
theorem Ranked.derivation_eq_trace (ranked : table.Ranked rank) (place : Place) :
    table.derivation place = ranked.trace 0 place := by
  obtain ⟨n, bound, ends⟩ := ranked.run_start place
  rw [derivation_eq, Walk.run_of_le ends bound]

/-! ## Derivations are well bracketed -/

/-- What a place derives is a forest of tokens and calls, behind the beginning of the innermost call
if the place is inside one. -/
theorem Ranked.exists_forest (ranked : table.Ranked rank) {depth : Nat} {events : List Event}
    (derives : ranked.trace depth place = .ok events) :
    ∃ (opening : List Event) (forest : Forest), events = opening ++ forest.events ∧
      (depth = 0 ∧ opening = [] ∨ 0 < depth ∧ ∃ rule, opening = [.enter rule]) := by
  induction order : rank place using Nat.strongRecOn generalizing place depth events with
  | ind order ih =>
  subst order
  obtain ⟨position, item⟩ := place
  cases here : table.find? ⟨position, item⟩ with
  | none =>
    rw [ranked.trace_of_none _ here] at derives
    cases derives
  | some why =>
  have lower := ranked _ _ here
  cases why with
  | seed =>
    rw [ranked.trace_seed _ here] at derives
    split at derives
    · rename_i outside
      cases derives
      exact ⟨[], .nil, rfl, Or.inl ⟨outside, rfl⟩⟩
    · cases derives
  | predict prev rule =>
    rw [ranked.trace_predict _ here] at derives
    split at derives
    · cases derives
    · rename_i inside
      cases derives
      exact ⟨[.enter rule], .nil, rfl, Or.inr ⟨Nat.pos_of_ne_zero inside, rule, rfl⟩⟩
  | epsilon prev =>
    rw [ranked.trace_epsilon _ here] at derives
    exact ih _ (lower _ (List.mem_cons_self ..)) derives rfl
  | complete stop caller exited =>
    rw [ranked.trace_complete _ here] at derives
    cases through : ranked.trace (depth + 1) ⟨position, stop⟩ with
    | error fault =>
      rw [through] at derives
      cases derives
    | ok inside =>
    cases back : ranked.trace depth ⟨stop.origin, caller⟩ with
    | error fault =>
      rw [through, back] at derives
      cases derives
    | ok before =>
      rw [through, back] at derives
      cases derives
      -- what lies inside the call begins where its rule was entered
      obtain ⟨_, inner, rfl, ⟨outside, -⟩ | ⟨-, entered, rfl⟩⟩ :=
        ih _ (lower _ (List.mem_cons_self ..)) through rfl
      · cases outside
      · obtain ⟨opening, front, rfl, opens⟩ :=
          ih _ (lower _ (List.mem_cons_of_mem _ (List.mem_cons_self ..))) back rfl
        refine ⟨opening, .call front entered inner exited, ?_, opens⟩
        simp only [Forest.events, List.append_assoc, List.cons_append, List.nil_append]
  | scan prev tokenIndex =>
    cases position with
    | zero =>
      rw [ranked.trace_scanAtStart _ here] at derives
      cases derives
    | succ position =>
      rw [ranked.trace_scan _ here] at derives
      cases back : ranked.trace depth ⟨position, prev⟩ with
      | error fault =>
        rw [back] at derives
        cases derives
      | ok before =>
        rw [back] at derives
        cases derives
        obtain ⟨opening, front, rfl, opens⟩ := ih _ (lower _ (List.mem_cons_self ..)) back rfl
        exact ⟨opening, .token front tokenIndex, List.append_assoc .., opens⟩

end ProvenanceTable

/-! ## How walks end -/

namespace Walk

variable {walk : Walk} {result : DerivationResult}

/-- The walk from a place comes to stand like this. -/
def MetFrom (table : ProvenanceTable) (place : Place) (walk : Walk) : Prop :=
  ∃ n, run table n (start place) = .walking walk

/-- A run that is over was ended by a last step. -/
theorem exists_last_of_run {n : Nat} (ends : run table n walk = .done result) :
    ∃ m last, run table m walk = .walking last ∧ last.step table = .done result := by
  induction n generalizing walk with
  | zero => cases ends
  | succ n ih =>
    rw [run] at ends
    cases first : walk.step table with
    | walking next =>
      rw [first] at ends
      obtain ⟨m, last, comes, ended⟩ := ih ends
      exact ⟨m + 1, last, run_of_step first comes, ended⟩
    | done early =>
      rw [first] at ends
      cases ends
      exact ⟨0, walk, rfl, first⟩

/-- A run is over with one result only. -/
theorem run_done_unique {m n : Nat} {other : DerivationResult}
    (first : run table m walk = .done result) (second : run table n walk = .done other) :
    result = other := by
  have first := run_of_le first (Nat.le_max_left m n)
  rw [run_of_le second (Nat.le_max_right m n)] at first
  cases first
  rfl

/-- **How a walk ends:** behind the seed, outside all calls or with calls pending, where a call is
entered that nothing is pending for, where a token is scanned in front of the first position, or
where no provenance is known. -/
theorem step_eq_done_iff :
    walk.step table = .done result ↔
      (table.find? walk.place = some .seed ∧ walk.pending = [] ∧ result = .ok walk.events) ∨
      (table.find? walk.place = some .seed ∧ walk.pending ≠ [] ∧
        result = .error (.pendingCalls walk.pending.length)) ∨
      ((∃ prev rule, table.find? walk.place = some (.predict prev rule)) ∧ walk.pending = [] ∧
        result = .error (.unbalancedReturn walk.place.position)) ∨
      ((∃ prev tokenIndex, table.find? walk.place = some (.scan prev tokenIndex)) ∧
        walk.place.position = 0 ∧ result = .error (.scanAtStart walk.place.item)) ∨
      (table.find? walk.place = none ∧ result = .error (.missingProvenance walk.place)) := by
  obtain ⟨⟨position, item⟩, pending, met⟩ := walk
  cases here : table.find? ⟨position, item⟩ with
  | none => simp [step, here, eq_comm]
  | some why => cases why <;> cases pending <;> cases position <;> simp [step, here, eq_comm]

/-- No step of a walk calls it endless; that is said only when the steps run out. -/
theorem step_ne_endless : walk.step table ≠ .done (.error .endless) := by
  simp [step_eq_done_iff]

/-- A walk ends with its events at a seed, outside all calls. -/
theorem step_eq_ok_iff {events : List Event} :
    walk.step table = .done (.ok events) ↔
      table.find? walk.place = some .seed ∧ walk.pending = [] ∧ walk.events = events := by
  simp [step_eq_done_iff, eq_comm]

/-- A walk fails at a prediction outside all calls. -/
theorem step_eq_unbalancedReturn_iff {position : Nat} :
    walk.step table = .done (.error (.unbalancedReturn position)) ↔
      (∃ prev rule, table.find? walk.place = some (.predict prev rule)) ∧ walk.pending = [] ∧
        walk.place.position = position := by
  simp [step_eq_done_iff, eq_comm]

/-- A walk fails at a seed inside calls. -/
theorem step_eq_pendingCalls_iff {count : Nat} :
    walk.step table = .done (.error (.pendingCalls count)) ↔
      table.find? walk.place = some .seed ∧ walk.pending ≠ [] ∧ walk.pending.length = count := by
  simp [step_eq_done_iff, eq_comm]

/-- A walk fails at a scan in front of the first position. -/
theorem step_eq_scanAtStart_iff {item : Item} :
    walk.step table = .done (.error (.scanAtStart item)) ↔
      (∃ prev tokenIndex, table.find? walk.place = some (.scan prev tokenIndex)) ∧
        walk.place = ⟨0, item⟩ := by
  rw [step_eq_done_iff]
  obtain ⟨⟨position, here⟩, pending, met⟩ := walk
  simp [eq_comm]

/-- A walk fails at a place without a provenance. -/
theorem step_eq_missingProvenance_iff {missing : Place} :
    walk.step table = .done (.error (.missingProvenance missing)) ↔
      table.find? walk.place = none ∧ walk.place = missing := by
  simp [step_eq_done_iff, eq_comm]

end Walk

namespace ProvenanceTable

/-- A derivation comes to what the last step of the walk says. -/
theorem Ranked.derivation_eq_iff (ranked : table.Ranked rank) {result : DerivationResult} :
    table.derivation place = result ↔
      ∃ walk : Walk, walk.MetFrom table place ∧ walk.step table = .done result := by
  obtain ⟨n, -, ends⟩ := ranked.run_start place
  rw [← ranked.derivation_eq_trace] at ends
  constructor
  · rintro rfl
    obtain ⟨m, last, comes, ended⟩ := Walk.exists_last_of_run ends
    exact ⟨last, ⟨m, comes⟩, ended⟩
  · rintro ⟨walk, ⟨m, comes⟩, ended⟩
    have finished : Walk.run table (m + 1) (Walk.start place) = .done result := by
      apply Walk.run_trans comes
      rw [Walk.run_one, ended]
    exact Walk.run_done_unique ends finished

/-- **Derivations from ranked provenance.** However a table came about, if it is ranked then the
walk from any place ends, and what it ends with is what the place derives by recursion. If these are
events, they are a forest, in which every exit closes the entry of one call, calls being nested. The
walk fails in four ways only, and in each of them exactly if it comes by what the failure says. -/
theorem derivation_of_ranked {table : ProvenanceTable} {rank : Place → Nat}
    (ranked : table.Ranked rank) (place : Place) :
    ((∃ n, Walk.run table n (Walk.start place) = .done (table.derivation place)) ∧
        table.derivation place ≠ .error .endless) ∧
      table.derivation place = ranked.trace 0 place ∧
      (∀ events, table.derivation place = .ok events → ∃ forest : Forest, events = forest.events) ∧
      (∀ events, table.derivation place = .ok events ↔
        ∃ walk : Walk, walk.MetFrom table place ∧ table.find? walk.place = some .seed ∧
          walk.pending = [] ∧ walk.events = events) ∧
      (∀ position, table.derivation place = .error (.unbalancedReturn position) ↔
        ∃ walk : Walk, walk.MetFrom table place ∧
          (∃ prev rule, table.find? walk.place = some (.predict prev rule)) ∧
          walk.pending = [] ∧ walk.place.position = position) ∧
      (∀ count, table.derivation place = .error (.pendingCalls count) ↔
        ∃ walk : Walk, walk.MetFrom table place ∧ table.find? walk.place = some .seed ∧
          walk.pending ≠ [] ∧ walk.pending.length = count) ∧
      (∀ item, table.derivation place = .error (.scanAtStart item) ↔
        ∃ walk : Walk, walk.MetFrom table place ∧
          (∃ prev tokenIndex, table.find? walk.place = some (.scan prev tokenIndex)) ∧
          walk.place = ⟨0, item⟩) ∧
      ∀ missing, table.derivation place = .error (.missingProvenance missing) ↔
        ∃ walk : Walk, walk.MetFrom table place ∧ table.find? walk.place = none ∧
          walk.place = missing := by
  obtain ⟨n, -, ends⟩ := ranked.run_start place
  rw [← ranked.derivation_eq_trace] at ends
  refine ⟨⟨⟨n, ends⟩, ?_⟩, ranked.derivation_eq_trace place, fun events derived => ?_,
    fun events => ?_, fun position => ?_, fun count => ?_, fun item => ?_, fun missing => ?_⟩
  · rw [ne_eq, ranked.derivation_eq_iff]
    rintro ⟨walk, -, ended⟩
    exact Walk.step_ne_endless ended
  · rw [ranked.derivation_eq_trace] at derived
    obtain ⟨_, forest, rfl, ⟨-, rfl⟩ | ⟨positive, -⟩⟩ := ranked.exists_forest derived
    · exact ⟨forest, rfl⟩
    · cases positive
  · simp only [ranked.derivation_eq_iff, Walk.step_eq_ok_iff]
  · simp only [ranked.derivation_eq_iff, Walk.step_eq_unbalancedReturn_iff]
  · simp only [ranked.derivation_eq_iff, Walk.step_eq_pendingCalls_iff]
  · simp only [ranked.derivation_eq_iff, Walk.step_eq_scanAtStart_iff]
  · simp only [ranked.derivation_eq_iff, Walk.step_eq_missingProvenance_iff]

/-- A call of rule `1` that was entered for another caller than the one behind which it goes on. -/
def crossedCall : ProvenanceTable :=
  .record ⟨1, ⟨6, 0, 0⟩⟩ (.complete ⟨5, 0, 0⟩ ⟨2, 0, 0⟩ 1) <|
  .record ⟨1, ⟨5, 0, 0⟩⟩ (.scan ⟨4, 0, 0⟩ 0) <|
  .record ⟨0, ⟨4, 0, 0⟩⟩ (.predict ⟨9, 0, 0⟩ 1) <|
  .record ⟨0, ⟨2, 0, 0⟩⟩ (.epsilon ⟨0, 0, 0⟩) <|
  .record ⟨0, ⟨0, 0, 0⟩⟩ .seed .empty

/-- Its places are ranked by position, and by state at one position. -/
theorem ranked_crossedCall :
    crossedCall.Ranked fun place => 10 * place.position + place.item.state :=
  ((((Ranked.empty _).record (by decide)).record (by decide)).record (by decide)).record (by decide)
    |>.record (by decide)

/-- In the sample the derivation from one place is the trace to it, the events of a forest, and that
from another fails where it meets a prediction outside all calls. -/
theorem derivation_crossedCall :
    crossedCall.derivation ⟨1, ⟨6, 0, 0⟩⟩ = .ok [.enter 1, .consume 0, .exit 1] ∧
      ranked_crossedCall.trace 0 ⟨1, ⟨6, 0, 0⟩⟩ = .ok [.enter 1, .consume 0, .exit 1] ∧
      (∃ forest : Forest, [.enter 1, .consume 0, .exit 1] = forest.events) ∧
      crossedCall.derivation ⟨1, ⟨5, 0, 0⟩⟩ = .error (.unbalancedReturn 0) ∧
      ∃ walk : Walk, walk.MetFrom crossedCall ⟨1, ⟨5, 0, 0⟩⟩ ∧ walk.pending = [] := by
  have derived : crossedCall.derivation ⟨1, ⟨6, 0, 0⟩⟩ =
      .ok [.enter 1, .consume 0, .exit 1] := by decide +kernel
  have failed : crossedCall.derivation ⟨1, ⟨5, 0, 0⟩⟩ = .error (.unbalancedReturn 0) := by
    decide +kernel
  obtain ⟨-, same, forest, -⟩ := derivation_of_ranked ranked_crossedCall ⟨1, ⟨6, 0, 0⟩⟩
  obtain ⟨-, -, -, -, unbalanced, -⟩ := derivation_of_ranked ranked_crossedCall ⟨1, ⟨5, 0, 0⟩⟩
  obtain ⟨walk, met, -, none, -⟩ := (unbalanced 0).1 failed
  exact ⟨derived, same.symm.trans derived, forest _ derived, failed, walk, met, none⟩

end ProvenanceTable

end TransitionNetworks
