import TransitionNetworks.Proofs.Run.Guards
import TransitionNetworks.Proofs.Run.Stages
import Mathlib.Order.Defs.LinearOrder
import Mathlib.Data.List.Lex

/-! # What a blueprint is checked for

A blueprint becomes a network exactly if it is well formed (`Blueprint.WellFormed`), and otherwise
the fault reported is the first one. That is told without the list of faults: a blueprint can be at
fault at certain sites (`Site`), each of which violates one condition (`Blueprint.Violates`), and
the sites have an order (`Site.Precedes`): rules come before states, the kind of a state before its
transitions, and the states that a transition names before the rule that it calls.

Everything that a run over a network looks up is there (`Findings.Grounded`). -/

namespace TransitionNetworks

/-! ## First elements -/

/-- What is found first in a list is found at some place, and at no place in front of it. -/
theorem exists_getElem?_of_findSome? {α β : Type} {f : α → Option β} {list : List α} {y : β}
    (first : list.findSome? f = some y) :
    ∃ n x, list[n]? = some x ∧ f x = some y ∧
      ∀ (m : Nat) (z : α), m < n → list[m]? = some z → f z = none := by
  obtain ⟨front, x, back, rfl, here, nothing⟩ := List.findSome?_eq_some_iff.1 first
  refine ⟨front.length, x, by simp, here, ?_⟩
  intro m z before there
  rw [List.getElem?_append_left before] at there
  exact nothing z (List.mem_of_getElem? there)

/-- The same for a list with the place of each element. -/
theorem exists_getElem?_of_findSome?_zipIdx {α β : Type} {f : α × Nat → Option β} {list : List α}
    {y : β} (first : list.zipIdx.findSome? f = some y) :
    ∃ n x, list[n]? = some x ∧ f (x, n) = some y ∧
      ∀ (m : Nat) (z : α), m < n → list[m]? = some z → f (z, m) = none := by
  obtain ⟨n, ⟨x, id⟩, here, isFirst, nothing⟩ := exists_getElem?_of_findSome? first
  obtain ⟨x', listed, same⟩ : ∃ x', list[n]? = some x' ∧ (x', n) = (x, id) := by
    simpa [List.getElem?_zipIdx] using here
  cases same
  refine ⟨n, x, listed, isFirst, ?_⟩
  intro m z before there
  exact nothing m (z, m) before (by simp [List.getElem?_zipIdx, there])

/-! ## Sites and their order -/

/-- Where a blueprint can be at fault. -/
inductive Site where
  /-- The boundary of a rule. -/
  | boundary (rule : Nat)
  /-- The rule that the kind of a state names. -/
  | kind (state : Nat)
  /-- One of the states that a transition of a state names. -/
  | reference (state transition number : Nat)
  /-- The rule that a transition of a state calls. -/
  | callee (state transition : Nat)
  deriving DecidableEq

/-- The key by which a site is found. -/
def Site.key : Site → List Nat
  | boundary rule => [0, rule]
  | kind state => [1, state, 0]
  | reference state transition number => [1, state, 1, transition, 0, number]
  | callee state transition => [1, state, 1, transition, 1]

/-- **The order of the sites** is that of their keys, compared number by number: rules come before
states, the kind of a state before its transitions, and the states that a transition names before
the rule that it calls. -/
def Site.Precedes (site other : Site) : Prop := site.key < other.key

instance (site other : Site) : Decidable (site.Precedes other) :=
  inferInstanceAs (Decidable (site.key < other.key))

/-- In front of a transition stand everything in front of the kind of its state, the kind, and what
belongs to a transition in front. -/
theorem Site.precedes_transition_iff {site : Site} {state transition : Nat} :
    site.Precedes (.reference state transition 0) ↔
      site.Precedes (.kind state) ∨ site = .kind state ∨
        ∃ front < transition, site = .callee state front ∨
          ∃ number, site = .reference state front number := by
  cases site
  all_goals simp [Precedes, key, List.cons_lt_cons_iff, eq_comm]
  all_goals omega

/-- In front of a state that a transition names stand everything in front of the transition, and the
states that it names before. -/
theorem Site.precedes_reference_iff {site : Site} {state transition number : Nat} :
    site.Precedes (.reference state transition number) ↔
      site.Precedes (.reference state transition 0) ∨
        ∃ front < number, site = .reference state transition front := by
  cases site
  all_goals simp [Precedes, key, List.cons_lt_cons_iff]
  omega

/-- In front of the rule that a transition calls stand everything in front of the transition, and
the states that it names. -/
theorem Site.precedes_callee_iff {site : Site} {state transition : Nat} :
    site.Precedes (.callee state transition) ↔
      site.Precedes (.reference state transition 0) ∨
        ∃ number, site = .reference state transition number := by
  cases site
  all_goals simp [Precedes, key, List.cons_lt_cons_iff]
  omega

namespace Blueprint

/-- **What violates a condition,** and how that is reported. -/
inductive Violates (blueprint : Blueprint) : Site → Fault → Prop
  /-- A rule does not start and stop in states of its own kind. -/
  | boundary {id : Nat} {rule : Rule} (found : blueprint.rule? id = some rule)
      (wrong : ¬ ((blueprint.state? rule.start).map State.kind = some (.start id) ∧
        (blueprint.state? rule.stop).map State.kind = some (.stop id))) :
      Violates blueprint (.boundary id) (.ruleBoundary id)
  /-- The kind of a state names a rule that does not exist. -/
  | kind {id rule : Nat} {state : State} (found : blueprint.state? id = some state)
      (named : state.kind.rule? = some rule) (missing : blueprint.rule? rule = none) :
      Violates blueprint (.kind id) (.ruleBoundary rule)
  /-- A transition names a state that does not exist. -/
  | reference {id n number target : Nat} {state : State} {transition : Transition}
      (found : blueprint.state? id = some state) (here : state.transitions[n]? = some transition)
      (named : transition.references[number]? = some target)
      (missing : blueprint.state? target = none) :
      Violates blueprint (.reference id n number) (.missingState id target)
  /-- A call enters a rule elsewhere than at its start, or a rule that does not exist. -/
  | callee {id n start follow rule : Nat} {state : State}
      (found : blueprint.state? id = some state)
      (here : state.transitions[n]? = some (.call start follow rule))
      (wrong : (blueprint.rule? rule).map Rule.start ≠ some start) :
      Violates blueprint (.callee id n) (.badCall id rule)

/-- **The first violation** is at a site in front of which there is none. -/
structure FirstViolation (blueprint : Blueprint) (site : Site) (fault : Fault) : Prop where
  /-- The site violates a condition. -/
  here : blueprint.Violates site fault
  /-- No site in front of it does. -/
  first : ∀ other another, other.Precedes site → ¬ blueprint.Violates other another

variable {blueprint : Blueprint} {site other : Site} {fault another : Fault}

/-- A violation is among the faults of its rule, of the kind of its state or of its transition. -/
theorem Violates.ne_nil (violates : blueprint.Violates site fault) :
    match site with
    | .boundary id => ∃ rule, blueprint.rule? id = some rule ∧ blueprint.ruleFaults id rule ≠ []
    | .kind id => ∃ state, blueprint.state? id = some state ∧ blueprint.kindFaults state.kind ≠ []
    | .reference id n _ | .callee id n => ∃ state transition, blueprint.state? id = some state ∧
        state.transitions[n]? = some transition ∧
          blueprint.transitionFaults id transition ≠ [] := by
  cases violates with
  | boundary found wrong =>
    refine ⟨_, found, ?_⟩
    rwa [ne_eq, ruleFaults_eq_nil_iff]
  | kind found named missing =>
    refine ⟨_, found, ?_⟩
    simp [kindFaults, named, missing]
  | reference found here named missing =>
    refine ⟨_, _, found, here, ?_⟩
    rw [ne_eq, transitionFaults_eq_nil_iff]
    rintro ⟨exist, -⟩
    obtain ⟨there, known⟩ := exist _ (List.mem_of_getElem? named)
    rw [missing] at known
    cases known
  | callee found here wrong =>
    refine ⟨_, _, found, here, ?_⟩
    rw [ne_eq, transitionFaults_eq_nil_iff]
    rintro ⟨-, enters⟩
    exact wrong (enters _ _ _ rfl)

/-- A blueprint with a violation has faults. -/
theorem Violates.faults_ne_nil (violates : blueprint.Violates site fault) :
    blueprint.faults ≠ [] := by
  intro none
  obtain ⟨rules, states⟩ := blueprint.faults_eq_nil_iff.1 none
  have faulty := violates.ne_nil
  cases site with
  | boundary id =>
    obtain ⟨rule, found, wrong⟩ := faulty
    exact wrong (rules id rule found)
  | kind id =>
    obtain ⟨state, found, wrong⟩ := faulty
    exact wrong (List.append_eq_nil_iff.1 (states id state found)).1
  | reference id n | callee id n =>
    obtain ⟨state, transition, found, here, wrong⟩ := faulty
    have none := ((blueprint.stateFaults_eq_nil_iff id state).1 (states id state found)).2
    exact wrong (none transition (List.mem_of_getElem? here))

/-- A site violates one condition in one way. -/
theorem Violates.unique (violates : blueprint.Violates site fault)
    (violates' : blueprint.Violates site another) : fault = another := by
  cases violates with
  | boundary => cases violates' with | boundary => rfl
  | kind found named =>
    cases violates' with
    | kind found' named' =>
      rw [found] at found'
      cases found'
      rw [named] at named'
      cases named'
      rfl
  | reference found here named =>
    cases violates' with
    | reference found' here' named' =>
      rw [found] at found'
      cases found'
      rw [here] at here'
      cases here'
      rw [named] at named'
      cases named'
      rfl
  | callee found here =>
    cases violates' with
    | callee found' here' =>
      rw [found] at found'
      cases found'
      rw [here] at here'
      cases here'
      rfl

/-- There is at most one first violation, since any two sites are in order. -/
theorem FirstViolation.unique (first : blueprint.FirstViolation site fault)
    (first' : blueprint.FirstViolation other another) : fault = another := by
  rcases lt_trichotomy site.key other.key with before | same | behind
  · exact absurd first.here (first'.first _ _ before)
  · have sites : site = other := by
      cases site <;> cases other <;> simp_all [Site.key]
    subst sites
    exact first.here.unique first'.here
  · exact absurd first'.here (first.first _ _ behind)

/-! ## The first fault is the first violation -/

section

variable {id : Nat} {state : State}

/-- If no rule is at fault and no state in front of one, nothing in front of its kind is. -/
theorem not_violates_of_precedes_kind
    (rules : ∀ id rule, blueprint.rule? id = some rule → blueprint.ruleFaults id rule = [])
    (earlier : ∀ m there, m < id → blueprint.state? m = some there →
      blueprint.stateFaults m there = []) (before : other.Precedes (.kind id)) :
    ¬ blueprint.Violates other another := by
  intro violates
  have faulty := violates.ne_nil
  cases other with
  | boundary id =>
    obtain ⟨rule, found, wrong⟩ := faulty
    exact wrong (rules id rule found)
  | kind m =>
    obtain ⟨there, found, wrong⟩ := faulty
    have front : m < id := by simpa [Site.Precedes, Site.key, List.cons_lt_cons_iff] using before
    exact wrong (List.append_eq_nil_iff.1 (earlier m there front found)).1
  | reference m n | callee m n =>
    obtain ⟨there, transition, found, here, wrong⟩ := faulty
    have front : m < id := by simpa [Site.Precedes, Site.key, List.cons_lt_cons_iff] using before
    have none := ((blueprint.stateFaults_eq_nil_iff m there).1 (earlier m there front found)).2
    exact wrong (none transition (List.mem_of_getElem? here))

/-- If moreover neither the kind of the state is at fault nor a transition in front of one, nothing
in front of the transition is. -/
theorem not_violates_of_precedes_transition {n : Nat} (found : blueprint.state? id = some state)
    (earlier : ∀ other another, other.Precedes (.kind id) → ¬ blueprint.Violates other another)
    (kind : blueprint.kindFaults state.kind = [])
    (front : ∀ m transition, m < n → state.transitions[m]? = some transition →
      blueprint.transitionFaults id transition = [])
    (before : other.Precedes (.reference id n 0)) : ¬ blueprint.Violates other another := by
  intro violates
  have faulty := violates.ne_nil
  rcases Site.precedes_transition_iff.1 before with before | rfl | ⟨m, less, rfl | ⟨number, rfl⟩⟩
  · exact earlier other another before violates
  · obtain ⟨there, found', wrong⟩ := faulty
    rw [found] at found'
    cases found'
    exact wrong kind
  all_goals
    obtain ⟨there, transition, found', here, wrong⟩ := faulty
    rw [found] at found'
    cases found'
    exact wrong (front m transition less here)

/-- The fault of a rule is the first violation, if no rule in front of it is at fault. -/
theorem exists_firstViolation_of_rule {rule : Rule} (found : blueprint.rule? id = some rule)
    (earlier : ∀ m there, m < id → blueprint.rule? m = some there →
      blueprint.ruleFaults m there = [])
    (reported : (blueprint.ruleFaults id rule).head? = some fault) :
    ∃ site, blueprint.FirstViolation site fault := by
  unfold ruleFaults at reported
  split at reported
  · cases reported
  · rename_i wrong
    cases reported
    refine ⟨.boundary id, .boundary found wrong, ?_⟩
    intro other another before violates
    cases violates with
    | @boundary m there found' wrong' =>
      have less : m < id := by simpa [Site.Precedes, Site.key, List.cons_lt_cons_iff] using before
      exact wrong' ((ruleFaults_eq_nil_iff _ _ _).1 (earlier m there less found'))
    | kind | reference | callee =>
      -- the sites of states come behind those of rules
      simp [Site.Precedes, Site.key, List.cons_lt_cons_iff] at before

/-- A state that a transition names is at fault if it is missing. -/
theorem Violates.exists_missing {n number : Nat} {transition : Transition}
    (violates : blueprint.Violates (.reference id n number) fault)
    (found : blueprint.state? id = some state) (here : state.transitions[n]? = some transition) :
    ∃ target, transition.references[number]? = some target ∧ blueprint.state? target = none := by
  cases violates with
  | reference found' here' named absent =>
    rw [found] at found'
    cases found'
    rw [here] at here'
    cases here'
    exact ⟨_, named, absent⟩

/-- The first missing state that a transition names is the first violation, if nothing in front of
the transition is at fault. -/
theorem firstViolation_of_reference {n target : Nat} {transition : Transition}
    (found : blueprint.state? id = some state) (here : state.transitions[n]? = some transition)
    (earlier : ∀ other another, other.Precedes (.reference id n 0) →
      ¬ blueprint.Violates other another)
    (first : transition.references.find? (fun target => (blueprint.state? target).isNone) =
      some target) :
    ∃ number, blueprint.FirstViolation (.reference id n number) (.missingState id target) := by
  obtain ⟨absent, number, inside, named, present⟩ := List.find?_eq_some_iff_getElem.1 first
  refine ⟨number, .reference found here (List.getElem?_eq_some_iff.2 ⟨inside, named⟩)
    (Option.isNone_iff_eq_none.1 absent), ?_⟩
  intro other another before violates
  rcases Site.precedes_reference_iff.1 before with before | ⟨m, less, rfl⟩
  · exact earlier other another before violates
  · obtain ⟨target', named', absent'⟩ := violates.exists_missing found here
    obtain ⟨inside', rfl⟩ := List.getElem?_eq_some_iff.1 named'
    have known := present m less
    rw [absent'] at known
    cases known

/-- A call that does not enter its rule at the start is the first violation, if moreover all states
that it names are there. -/
theorem firstViolation_of_callee {n start follow rule : Nat}
    (found : blueprint.state? id = some state)
    (here : state.transitions[n]? = some (.call start follow rule))
    (earlier : ∀ other another, other.Precedes (.reference id n 0) →
      ¬ blueprint.Violates other another)
    (present : ∀ target ∈ (Transition.call start follow rule).references,
      blueprint.state? target ≠ none)
    (enters : ¬ (blueprint.rule? rule).map Rule.start = some start) :
    blueprint.FirstViolation (.callee id n) (.badCall id rule) := by
  refine ⟨.callee found here enters, ?_⟩
  intro other another before violates
  rcases Site.precedes_callee_iff.1 before with before | ⟨number, rfl⟩
  · exact earlier other another before violates
  · obtain ⟨target, named, absent⟩ := violates.exists_missing found here
    exact present target (List.mem_of_getElem? named) absent

/-- The first fault of a transition is the first violation, if nothing in front of the transition is
at fault. -/
theorem exists_firstViolation_of_transition {n : Nat} {transition : Transition}
    (found : blueprint.state? id = some state) (here : state.transitions[n]? = some transition)
    (earlier : ∀ other another, other.Precedes (.reference id n 0) →
      ¬ blueprint.Violates other another)
    (reported : (blueprint.transitionFaults id transition).head? = some fault) :
    ∃ site, blueprint.FirstViolation site fault := by
  unfold transitionFaults at reported
  rw [List.head?_append, Option.or_eq_some_iff, List.head?_map, List.head?_filter] at reported
  rcases reported with absent | ⟨present, wrong⟩
  · obtain ⟨target, first, rfl⟩ := Option.map_eq_some_iff.1 absent
    obtain ⟨number, isFirst⟩ := firstViolation_of_reference found here earlier first
    exact ⟨_, isFirst⟩
  · -- all of them are there, so the transition is a call that does not enter its rule at the start
    have present : ∀ target ∈ transition.references, blueprint.state? target ≠ none := by
      simpa using present
    cases transition with
    | terminal | epsilon => simp at wrong
    | call start follow rule =>
      by_cases enters : (blueprint.rule? rule).map Rule.start = some start
      · simp [enters] at wrong
      · obtain rfl : Fault.badCall id rule = fault := by simpa [enters] using wrong
        exact ⟨_, firstViolation_of_callee found here earlier present enters⟩

/-- The first fault of a state is the first violation, if nothing in front of its kind is at fault.
-/
theorem exists_firstViolation_of_state (found : blueprint.state? id = some state)
    (earlier : ∀ other another, other.Precedes (.kind id) → ¬ blueprint.Violates other another)
    (reported : (blueprint.stateFaults id state).head? = some fault) :
    ∃ site, blueprint.FirstViolation site fault := by
  rw [stateFaults, List.head?_append, Option.or_eq_some_iff, List.head?_flatMap] at reported
  rcases reported with wrong | ⟨right, reported⟩
  · refine ⟨.kind id, ?_, earlier⟩
    unfold kindFaults at wrong
    cases named : state.kind.rule? with
    | none => simp [named] at wrong
    | some rule =>
      cases known : blueprint.rule? rule with
      | some => simp [named, known] at wrong
      | none =>
        obtain rfl : Fault.ruleBoundary rule = fault := by simpa [named, known] using wrong
        exact .kind found named known
  · obtain ⟨n, transition, here, reported, front⟩ := exists_getElem?_of_findSome? reported
    refine exists_firstViolation_of_transition found here ?_ reported
    intro other another before
    exact not_violates_of_precedes_transition found earlier (List.head?_eq_none_iff.1 right)
      (fun m there less here => List.head?_eq_none_iff.1 (front m there less here)) before

/-- **The first fault is the first violation.** -/
theorem exists_firstViolation (reported : blueprint.faults.head? = some fault) :
    ∃ site, blueprint.FirstViolation site fault := by
  rw [faults, List.head?_append, Option.or_eq_some_iff, List.head?_flatMap, List.head?_flatMap]
    at reported
  rcases reported with wrong | ⟨right, reported⟩
  · obtain ⟨id, rule, found, wrong, front⟩ := exists_getElem?_of_findSome?_zipIdx wrong
    rw [Array.getElem?_toList] at found
    refine exists_firstViolation_of_rule found ?_ wrong
    intro m there less found
    exact List.head?_eq_none_iff.1 (front m there less (by rwa [Array.getElem?_toList]))
  · obtain ⟨id, state, found, reported, front⟩ := exists_getElem?_of_findSome?_zipIdx reported
    rw [Array.getElem?_toList] at found
    refine exists_firstViolation_of_state found ?_ reported
    intro other another before
    refine not_violates_of_precedes_kind ?_ ?_ before
    · intro m rule found
      have member : (rule, m) ∈ blueprint.rules.toList.zipIdx := by
        rwa [List.mem_zipIdx_iff_getElem?, Array.getElem?_toList]
      exact List.head?_eq_none_iff.1 (List.findSome?_eq_none_iff.1 right _ member)
    · intro m there less found
      exact List.head?_eq_none_iff.1 (front m there less (by rwa [Array.getElem?_toList]))

end

/-- **A fault is reported exactly if it is the first violation.** -/
theorem check_eq_error_iff_firstViolation (blueprint : Blueprint) (fault : Fault) :
    blueprint.check = .error fault ↔ ∃ site, blueprint.FirstViolation site fault := by
  rw [check_eq_error_iff]
  constructor
  · exact exists_firstViolation
  · rintro ⟨site, first⟩
    -- there are faults, and the first of them is the first violation too
    cases reported : blueprint.faults.head? with
    | none => exact absurd (List.head?_eq_none_iff.1 reported) first.here.faults_ne_nil
    | some another =>
      obtain ⟨other, first'⟩ := exists_firstViolation reported
      rw [first'.unique first]

/-! ## Well-formed blueprints -/

/-- **Well-formed blueprints.** -/
structure WellFormed (blueprint : Blueprint) : Prop where
  /-- Every rule starts in a state of its own kind and stops in one. -/
  boundaries : ∀ id rule, blueprint.rule? id = some rule →
    (∃ start, blueprint.state? rule.start = some start ∧ start.kind = .start id) ∧
      ∃ stop, blueprint.state? rule.stop = some stop ∧ stop.kind = .stop id
  /-- The rule that the kind of a state names exists. -/
  kinds : ∀ id state rule, blueprint.state? id = some state → state.kind.rule? = some rule →
    ∃ named, blueprint.rule? rule = some named
  /-- The states that a transition names exist. -/
  references : ∀ id state transition target, blueprint.state? id = some state →
    transition ∈ state.transitions → target ∈ transition.references →
      ∃ there, blueprint.state? target = some there
  /-- The rule that a transition calls exists, and starts where the call enters it. -/
  calls : ∀ id state start follow rule, blueprint.state? id = some state →
    .call start follow rule ∈ state.transitions →
      ∃ called, blueprint.rule? rule = some called ∧ called.start = start

/-- A blueprint is well formed exactly if it has no faults. -/
theorem faults_eq_nil_iff_wellFormed (blueprint : Blueprint) :
    blueprint.faults = [] ↔ blueprint.WellFormed := by
  rw [faults_eq_nil_iff]
  simp only [ruleFaults_eq_nil_iff, stateFaults_eq_nil_iff, transitionFaults_eq_nil_iff,
    Option.map_eq_some_iff]
  constructor
  · rintro ⟨rules, states⟩
    refine ⟨rules, ?_, ?_, ?_⟩
    · exact fun id state rule found => (states id state found).1 rule
    · intro id state transition target found member
      exact ((states id state found).2 transition member).1 target
    · intro id state start follow rule found member
      exact ((states id state found).2 _ member).2 start follow rule rfl
  · rintro ⟨boundaries, kinds, references, calls⟩
    refine ⟨boundaries, ?_⟩
    intro id state found
    refine ⟨fun rule => kinds id state rule found, ?_⟩
    intro transition member
    refine ⟨fun target => references id state transition target found member, ?_⟩
    rintro start follow rule rfl
    exact calls id state start follow rule found member

end Blueprint

/-! ## What a run looks up -/

namespace Network

variable {network : Network} {id other state : Nat} {rule another : Rule}

/-- No two rules of a network start in one state. -/
theorem eq_of_start_eq (found : network.rule? id = some rule)
    (found' : network.rule? other = some another) (same : rule.start = another.start) :
    id = other := by
  have kind := (network.kind_of_rule? found).1
  rw [same, (network.kind_of_rule? found').1] at kind
  cases kind
  rfl

/-- No two rules of a network stop in one state. -/
theorem eq_of_stop_eq (found : network.rule? id = some rule)
    (found' : network.rule? other = some another) (same : rule.stop = another.stop) :
    id = other := by
  have kind := (network.kind_of_rule? found).2
  rw [same, (network.kind_of_rule? found').2] at kind
  cases kind
  rfl

/-- No rule of a network stops where a rule starts. -/
theorem start_ne_stop (found : network.rule? id = some rule)
    (found' : network.rule? other = some another) : rule.start ≠ another.stop := by
  intro same
  have kind := (network.kind_of_rule? found).1
  rw [same, (network.kind_of_rule? found').2] at kind
  cases kind

end Network

/-- The rule that a provenance names: the one predicted or completed. -/
def Provenance.rule? : Provenance → Option Nat
  | seed => none
  | epsilon _ => none
  | predict _ rule => some rule
  | complete _ _ rule => some rule
  | scan _ _ => none

namespace Findings

/-- **Grounded findings.** Every state and every rule is there that a run over the network looks up.
-/
structure Grounded (network : Network) (findings : Findings) : Prop where
  /-- The states of items, and the rules that they start or stop. -/
  items : ∀ position item, findings.Has position item →
    ∃ state, network.state? item.state = some state ∧
      ∀ rule, state.kind.rule? = some rule → ∃ named, network.rule? rule = some named
  /-- The states to which items lead, and the rules that they call, entered at their start. -/
  offers : ∀ position item transition, findings.Has position item →
    network.Offers item.state transition →
      (∀ target ∈ transition.references, ∃ state, network.state? target = some state) ∧
        ∀ start follow rule, transition = .call start follow rule →
          ∃ called, network.rule? rule = some called ∧ called.start = start
  /-- The rules of frames, and the states that follow the calls. -/
  frames : ∀ node frame, findings.stackGraph.frame? node = some frame →
    (∃ called, network.rule? frame.rule = some called) ∧
      ∃ state, network.state? frame.follow = some state
  /-- The rules that are predicted or completed. -/
  rules : ∀ place why rule, (place, why) ∈ findings.finds → why.rule? = some rule →
    ∃ named, network.rule? rule = some named

/-- **Linked findings are grounded,** since the network is well formed. -/
theorem Linked.grounded {network : Network} {start : Nat} {input : List Token}
    {findings : Findings} (linked : findings.Linked network start input) :
    findings.Grounded network where
  items position item found := by
    obtain ⟨state, here⟩ := linked.inState position item found
    have wellFormed := (network.faults_eq_nil_iff_wellFormed).1 network.faultless
    exact ⟨state, here, fun rule => wellFormed.kinds item.state state rule here⟩
  offers position item transition _ offers := by
    refine ⟨fun target => offers.exists_state?, ?_⟩
    rintro start follow rule rfl
    exact offers.rule?_of_call
  frames node frame here := by
    obtain ⟨caller, -, -, entry, offers⟩ := linked.exists_caller here
    obtain ⟨called, known, -⟩ := offers.rule?_of_call
    exact ⟨⟨called, known⟩, offers.exists_state? (by simp [Transition.references])⟩
  rules place why rule member names := by
    cases linked.legal place why member with
    | seed | epsilon | scan => cases names
    | predict offers =>
      cases names
      obtain ⟨called, known, -⟩ := offers.rule?_of_call
      exact ⟨called, known⟩
    | complete stops =>
      cases names
      exact stops.exists_rule?

end Findings

namespace Blueprint

/-- **The check accepts exactly the well-formed blueprints and reports the first violation.** A
blueprint becomes a network exactly if it is well formed, and is unchanged then; otherwise the fault
reported is that of the first site that violates a condition. In a network that was accepted no two
rules share a start or stop state. A run over it is not stopped by a guard, it passes from its seed
through its stages, and at every stage every state and rule that is looked up is there. -/
theorem check_spec (blueprint : Blueprint) :
    ((∃ network, blueprint.check = .ok network) ↔ blueprint.WellFormed) ∧
      (∀ fault, blueprint.check = .error fault ↔
        ∃ site, blueprint.FirstViolation site fault) ∧
      ∀ network, blueprint.check = .ok network → network.toBlueprint = blueprint ∧
        (∀ id other rule another, network.rule? id = some rule →
          network.rule? other = some another →
            rule.start ≠ another.stop ∧
              (rule.start = another.start ∨ rule.stop = another.stop → id = other)) ∧
        ∀ startRule rule tokens, network.rule? startRule = some rule →
          ∃ recognition, network.recognition startRule tokens = .ok recognition ∧
            network.guardedRecognition startRule tokens = .ok recognition ∧
            Passage network (inputOf tokens) (Findings.seeded rule tokens)
              (network.stages startRule rule tokens) recognition.findings ∧
            ∀ stage ∈ Findings.seeded rule tokens :: network.stages startRule rule tokens,
              stage.Grounded network := by
  refine ⟨?_, blueprint.check_eq_error_iff_firstViolation, ?_⟩
  · rw [← faults_eq_nil_iff_wellFormed]
    constructor
    · rintro ⟨network, accepted⟩
      exact (blueprint.check_eq_ok_iff network).1 accepted ▸ network.faultless
    · intro none
      exact ⟨⟨blueprint, none⟩, (blueprint.check_eq_ok_iff _).2 rfl⟩
  · intro network accepted
    refine ⟨(blueprint.check_eq_ok_iff network).1 accepted, ?_, ?_⟩
    · intro id other rule another found found'
      refine ⟨Network.start_ne_stop found found', ?_⟩
      rintro (same | same)
      · exact Network.eq_of_start_eq found found' same
      · exact Network.eq_of_stop_eq found found' same
    · intro startRule rule tokens known
      have ran := Network.recognition_of_rule? known tokens
      refine ⟨_, ran, Network.guardedRecognition_of_recognition ran,
        network.passage_stages startRule rule tokens, ?_⟩
      intro stage member
      exact (network.linked_stages known tokens stage member).grounded

/-- A blueprint with faults at several sites. Its start state calls a rule that does not exist,
through one that does not start there, and goes to a state that does not exist. -/
def unsound : Blueprint where
  states := #[⟨.start 0, [.epsilon .plain 1, .call 1 7 3, .epsilon .plain 9]⟩, ⟨.stop 0, []⟩,
    ⟨.start 2, []⟩]
  rules := #[⟨"S", 0, 1⟩]

/-- The state that follows the call is missing, which is reported in front of all else that is wrong
with the sample. The other sample is accepted, and no guard stops a run over it. -/
theorem check_spec_unsound :
    (∃ site, unsound.FirstViolation site (.missingState 0 7)) ∧ ¬ unsound.WellFormed ∧
      doubling.WellFormed ∧ ∃ recognition, doubling.guardedRecognition 0 [7] = .ok recognition := by
  have reported : unsound.check = .error (.missingState 0 7) := by decide
  have accepted : doubling.toBlueprint.check = .ok doubling := (check_eq_ok_iff _ _).2 rfl
  obtain ⟨accepts, violations, -⟩ := check_spec unsound
  obtain ⟨accepts', -, consequences⟩ := check_spec doubling.toBlueprint
  refine ⟨(violations _).1 reported, ?_, accepts'.1 ⟨doubling, accepted⟩, ?_⟩
  · rw [← accepts, reported]
    rintro ⟨network, accepted⟩
    cases accepted
  · obtain ⟨-, -, runs⟩ := consequences doubling accepted
    obtain ⟨recognition, -, guarded, -⟩ := runs 0 ⟨"S", 0, 1⟩ [7] rfl
    exact ⟨recognition, guarded⟩

end Blueprint

end TransitionNetworks
