import TransitionNetworks.Grammar.Samples
import TransitionNetworks.Parsing
import TransitionNetworks.Proofs.Acceptance
import TransitionNetworks.Proofs.Grammar.Builder
import TransitionNetworks.Proofs.Grammar.Chains

/-! # Grammars are decided

In a network where productions are laid out, a path from the start of a rule to its stop state goes
through the chain of one of its alternatives and derives what the alternative derives, and the other
way round (`LaidOut.path_iff`). A path that has not come to the end keeps in one chain, with some
steps derived and the others ahead (`Progress`).

With what runs accept, and what resolving keeps, recognition decides the language of every rule of a
grammar (`Grammar.recognize_iff`). -/

namespace TransitionNetworks

variable {productions : List (Production Nat)} {network : Network}

/-- A basic state with one transition offers it. -/
theorem Network.offers_singleton {state : Nat} {transition : Transition}
    (here : network.state? state = some ⟨.basic, [transition]⟩) : network.Offers state transition :=
  ⟨_, here, rfl, List.mem_singleton_self transition⟩

/-- A basic state with one transition offers no other. -/
theorem Network.Offers.eq_of_singleton {state : Nat} {transition other : Transition}
    (offers : network.Offers state transition)
    (here : network.state? state = some ⟨.basic, [other]⟩) : transition = other := by
  obtain ⟨-, member⟩ := offers.of_state? here
  exact List.mem_singleton.1 member

/-- A chain goes through basic states. -/
theorem Blueprint.HasChain.exists_state? {blueprint : Blueprint} {stop here : Nat}
    {steps : Alternative Nat} (hasChain : blueprint.HasChain stop here steps) :
    ∃ transition, blueprint.state? here = some ⟨.basic, [transition]⟩ := by
  cases steps with
  | nil => exact ⟨_, hasChain⟩
  | cons step rest => exact ⟨_, hasChain.1⟩

/-- What the state at the head of a chain offers: the way to the stop state, or the first step. -/
theorem Blueprint.HasChain.eq_of_offers {stop here : Nat} {steps : Alternative Nat}
    {transition : Transition} (hasChain : network.HasChain stop here steps)
    (offers : network.Offers here transition) :
    steps = [] ∧ transition = .epsilon .plain stop ∨
      ∃ step rest, steps = step :: rest ∧ transition = step.transition (here + 1) ∧
        network.HasChain stop (here + 1) rest := by
  cases steps with
  | nil => exact Or.inl ⟨rfl, offers.eq_of_singleton hasChain⟩
  | cons step rest =>
    exact Or.inr ⟨step, rest, rfl, offers.eq_of_singleton hasChain.1, hasChain.2⟩

namespace LaidOut

/-- The start state of a rule leads to the chain of each alternative. -/
theorem exists_head (laidOut : LaidOut productions network.toBlueprint) {rule : Nat}
    {alternative : Alternative Nat} (way : HasAlternativeAt productions rule alternative) :
    ∃ head, network.Offers (startState rule) (.epsilon .plain head) ∧
      network.HasChain (stopState rule) head alternative := by
  obtain ⟨production, found, member⟩ := way
  obtain ⟨heads, starts, all⟩ := laidOut.start rule production found
  obtain ⟨head, isHead, hasChain⟩ := exists_mem_of_forall₂ all member
  exact ⟨head, ⟨_, starts, rfl, List.mem_map_of_mem isHead⟩, hasChain⟩

/-- The start state of a rule leads nowhere else. -/
theorem exists_alternative (laidOut : LaidOut productions network.toBlueprint) {rule : Nat}
    {production : Production Nat} (found : productions[rule]? = some production)
    {transition : Transition} (offers : network.Offers (startState rule) transition) :
    ∃ alternative head, transition = .epsilon .plain head ∧
      HasAlternativeAt productions rule alternative ∧
        network.HasChain (stopState rule) head alternative := by
  obtain ⟨heads, starts, all⟩ := laidOut.start rule production found
  obtain ⟨-, member⟩ := offers.of_state? starts
  obtain ⟨head, isHead, rfl⟩ := List.mem_map.1 member
  obtain ⟨alternative, member', hasChain⟩ := exists_mem_of_forall₂ all.flip isHead
  exact ⟨alternative, head, rfl, ⟨production, found, member'⟩, hasChain⟩

/-- A call goes to a production, from its start state. -/
theorem exists_production (laidOut : LaidOut productions network.toBlueprint)
    {state start follow rule : Nat} (offers : network.Offers state (.call start follow rule)) :
    start = startState rule ∧ ∃ production, productions[rule]? = some production := by
  obtain ⟨called, known, rfl⟩ := offers.rule?_of_call
  have listed := laidOut.rules rule
  rw [known] at listed
  obtain ⟨production, found, rfl⟩ := Option.map_eq_some_iff.1 listed.symm
  exact ⟨rfl, production, found⟩

/-- **Derivations are followed by paths** along the chain of their steps. -/
theorem path_of_derives (laidOut : LaidOut productions network.toBlueprint)
    {steps : Alternative Nat} {tokens : List Token}
    (derives : Derives (HasAlternativeAt productions) steps tokens) {origin here rule : Nat}
    {before : List Token} (hasChain : network.HasChain (stopState rule) here steps)
    (path : network.Path origin before here) :
    network.Path origin (before ++ tokens) (stopState rule) := by
  induction derives generalizing origin here rule before with
  | nil =>
    rw [List.append_nil]
    exact path.epsilon (network.offers_singleton hasChain)
  | oneOf listed behind ih =>
    have accepts := (Matcher.accepts_oneOf _ _).2 listed
    rw [List.append_cons]
    exact ih hasChain.2 (path.terminal (network.offers_singleton hasChain.1) accepts)
  | noneOf inner unlisted behind ih =>
    have accepts := (Matcher.accepts_noneOf _ _).2 ⟨inner, unlisted⟩
    rw [List.append_cons]
    exact ih hasChain.2 (path.terminal (network.offers_singleton hasChain.1) accepts)
  | any inner behind ih =>
    have accepts := (Matcher.accepts_any _).2 inner
    rw [List.append_cons]
    exact ih hasChain.2 (path.terminal (network.offers_singleton hasChain.1) accepts)
  | @call called alternative rest inside tokens way through behind ihThrough ihBehind =>
    -- the path goes through the chain of the alternative to the stop state of the rule called
    have offers := network.offers_singleton hasChain.1
    obtain ⟨head, enters, chainInside⟩ := laidOut.exists_head way
    obtain ⟨production, found, -⟩ := way
    have stops : network.StopsIn called (stopState called) :=
      ⟨_, laidOut.stop called production found, rfl⟩
    have entered := (Network.Path.refl (startState called)).epsilon enters
    have pathInside := ihThrough chainInside entered
    rw [← List.append_assoc]
    exact ihBehind hasChain.2 (path.call offers pathInside stops)
  | epsilon behind ih =>
    exact ih hasChain.2 (path.epsilon (network.offers_singleton hasChain.1))

end LaidOut

/-- **How far a path has come** from the start of a rule. -/
inductive Progress (productions : List (Production Nat)) (network : Network) (rule : Nat) :
    List Token → Nat → Prop
  /-- It has not begun. -/
  | start : Progress productions network rule [] (startState rule)
  /-- It has derived some steps of an alternative, and the chain of the others is ahead. -/
  | inside {done rest : Alternative Nat} {tokens : List Token} {here : Nat}
      (way : HasAlternativeAt productions rule (done ++ rest))
      (derives : Derives (HasAlternativeAt productions) done tokens)
      (ahead : network.HasChain (stopState rule) here rest) :
      Progress productions network rule tokens here
  /-- It has derived an alternative. -/
  | stop {alternative : Alternative Nat} {tokens : List Token}
      (way : HasAlternativeAt productions rule alternative)
      (derives : Derives (HasAlternativeAt productions) alternative tokens) :
      Progress productions network rule tokens (stopState rule)

namespace Progress

variable {rule : Nat} {tokens : List Token} {here : Nat}

/-- How a path goes on: into a chain or out of it, or by the next step of its alternative. -/
theorem goesOn (laidOut : LaidOut productions network.toBlueprint) {production : Production Nat}
    (found : productions[rule]? = some production)
    (progress : Progress productions network rule tokens here) {transition : Transition}
    (offers : network.Offers here transition) :
    (∃ target, transition = .epsilon .plain target ∧
      Progress productions network rule tokens target) ∨
    ∃ done step rest, HasAlternativeAt productions rule (done ++ step :: rest) ∧
      Derives (HasAlternativeAt productions) done tokens ∧
      network.HasChain (stopState rule) (here + 1) rest ∧
      transition = step.transition (here + 1) := by
  cases progress with
  | start =>
    obtain ⟨alternative, head, rfl, way, ahead⟩ := laidOut.exists_alternative found offers
    exact Or.inl ⟨head, rfl, .inside (by rwa [List.nil_append]) .nil ahead⟩
  | @inside done rest _ _ way derives ahead =>
    rcases ahead.eq_of_offers offers with ⟨rfl, rfl⟩ | ⟨step, rest, rfl, rfl, behind⟩
    · rw [List.append_nil] at way
      exact Or.inl ⟨_, rfl, .stop way derives⟩
    · exact Or.inr ⟨done, step, rest, way, derives, behind, rfl⟩
  | stop way derives =>
    -- a state in which a rule stops offers nothing to go on by
    have stops : network.StopsIn rule (stopState rule) :=
      ⟨_, laidOut.stop rule production found, rfl⟩
    exact absurd stops offers.not_stopsIn

/-- One more step is derived. -/
theorem step {done rest : Alternative Nat} {step : Step Nat} {more : List Token}
    (way : HasAlternativeAt productions rule (done ++ step :: rest))
    (derives : Derives (HasAlternativeAt productions) done tokens)
    (next : Derives (HasAlternativeAt productions) [step] more)
    (ahead : network.HasChain (stopState rule) here rest) :
    Progress productions network rule (tokens ++ more) here := by
  refine .inside ?_ (derives.append next) ahead
  rwa [List.append_assoc, List.singleton_append]

/-- A path that has come to the stop state has derived an alternative. -/
theorem derives (laidOut : LaidOut productions network.toBlueprint) {production : Production Nat}
    (found : productions[rule]? = some production)
    (progress : Progress productions network rule tokens (stopState rule)) :
    ∃ alternative, HasAlternativeAt productions rule alternative ∧
      Derives (HasAlternativeAt productions) alternative tokens := by
  generalize isStop : stopState rule = state at progress
  cases progress with
  | start =>
    unfold stopState startState at isStop
    omega
  | inside way derives ahead =>
    -- chains go through basic states, and the stop state is none
    obtain ⟨transition, basic⟩ := ahead.exists_state?
    rw [← isStop, laidOut.stop rule production found] at basic
    cases basic
  | stop way derives => exact ⟨_, way, derives⟩

end Progress

namespace LaidOut

/-- **Paths make progress** from the start of a rule. -/
theorem progress_of_path (laidOut : LaidOut productions network.toBlueprint) {origin target : Nat}
    {tokens : List Token} (path : network.Path origin tokens target) {rule : Nat}
    {production : Production Nat} (found : productions[rule]? = some production)
    (starts : origin = startState rule) : Progress productions network rule tokens target := by
  induction path generalizing rule production with
  | refl origin =>
    subst starts
    exact .start
  | @terminal origin here target before matcher token path offers accepts ih =>
    rcases (ih found starts).goesOn laidOut found offers with
      ⟨_, same, -⟩ | ⟨done, step, rest, way, derives, ahead, same⟩
    · cases same
    · -- the step consumes the token
      cases step with
      | consume matcher =>
        cases same
        exact .step way derives (.consume accepts .nil) ahead
      | call rule => cases same
      | epsilon kind => cases same
  | @epsilon origin here target before kind path offers ih =>
    rcases (ih found starts).goesOn laidOut found offers with
      ⟨_, same, progress⟩ | ⟨done, step, rest, way, derives, ahead, same⟩
    · -- the path goes into a chain or out of it
      cases same
      exact progress
    · cases step with
      | consume matcher => cases same
      | call rule => cases same
      | epsilon kind =>
        cases same
        rw [← List.append_nil before]
        exact .step way derives (.epsilon .nil) ahead
  | @call origin here start follow called stop before inside path offers through stops ihPath
      ihThrough =>
    rcases (ihPath found starts).goesOn laidOut found offers with
      ⟨_, same, -⟩ | ⟨done, step, rest, way, derives, ahead, same⟩
    · cases same
    · cases step with
      | consume matcher => cases same
      | call _ =>
        -- the call stops in the stop state of its rule, so it has derived an alternative
        obtain ⟨startsInside, production', found'⟩ := laidOut.exists_production offers
        cases same
        obtain ⟨state, there, isStop⟩ := stops
        cases laidOut.stops _ _ _ there isStop
        obtain ⟨alternative, wayInside, derivesInside⟩ :=
          (ihThrough found' startsInside).derives laidOut found'
        have next := Derives.call wayInside derivesInside .nil
        rw [List.append_nil] at next
        exact .step way derives next ahead
      | epsilon kind => cases same

/-- **Paths through a rule** from its start to its stop state are what its alternatives derive. -/
theorem path_iff (laidOut : LaidOut productions network.toBlueprint) {rule : Nat}
    {production : Production Nat} (found : productions[rule]? = some production)
    (tokens : List Token) :
    network.Path (startState rule) tokens (stopState rule) ↔ ∃ alternative,
      HasAlternativeAt productions rule alternative ∧
        Derives (HasAlternativeAt productions) alternative tokens := by
  constructor
  · intro path
    exact (laidOut.progress_of_path path found rfl).derives laidOut found
  · rintro ⟨alternative, way, derives⟩
    obtain ⟨head, enters, hasChain⟩ := laidOut.exists_head way
    exact laidOut.path_of_derives derives hasChain ((Network.Path.refl _).epsilon enters)

end LaidOut

namespace Grammar

variable {grammar : Grammar}

/-- The network of a grammar is the layout of what the grammar resolves to. -/
theorem exists_resolved (built : grammar.toNetwork = .ok network) :
    ∃ productions, grammar.resolve = .ok productions ∧
      network.toBlueprint = layout productions := by
  cases resolved : grammar.resolve with
  | error fault =>
    rw [toNetwork, resolved] at built
    cases built
  | ok productions =>
    rw [toNetwork, resolved] at built
    exact ⟨productions, rfl, ((layout productions).check_eq_ok_iff network).1 built⟩

/-- The network of a grammar is laid out as what the grammar resolves to. -/
theorem exists_layout (built : grammar.toNetwork = .ok network) :
    ∃ productions, grammar.resolve = .ok productions ∧
      LaidOut productions network.toBlueprint := by
  obtain ⟨productions, resolved, same⟩ := exists_resolved built
  exact ⟨productions, resolved, same ▸ laidOut_layout productions⟩

/-- A grammar keeps the names of its rules when it is resolved. -/
theorem names_of_resolve {productions : List (Production Nat)}
    (resolved : grammar.resolve = .ok productions) :
    productions.map Production.name = grammar.names :=
  map_name_of_forall₂ (corresponds_of_resolve resolved).2

/-- A rule of a grammar is found by name in its network. -/
theorem ruleNamed?_eq_some {productions : List (Production Nat)}
    (resolved : grammar.resolve = .ok productions)
    (laidOut : LaidOut productions network.toBlueprint) {rule : Nat}
    {production : Production String} (defined : grammar.productions[rule]? = some production) :
    network.ruleNamed? production.name = some rule := by
  have listed : network.rules.toList.map Rule.name = grammar.names := by
    rw [← names_of_resolve resolved]
    refine List.ext_getElem? ?_
    intro n
    have here : network.rules[n]? = _ := laidOut.rules n
    rw [List.getElem?_map, List.getElem?_map, Array.getElem?_toList, here, Option.map_map]
    rfl
  have unique := (corresponds_of_resolve resolved).1
  have place : grammar.names[rule]? = some production.name := by
    rw [names, List.getElem?_map, defined]
    rfl
  have found := (findIdx?_eq_some_iff_of_nodup unique).2 place
  rw [← listed, List.findIdx?_map, ← List.findIdx?_toArray, Array.toArray_toList] at found
  exact found

/-- **Recognition decides the language of a grammar.** If a grammar has a network, each of its rules
is found there by name, at the place where the grammar defines it, and recognition from there
succeeds. It accepts exactly if the rule derives the tokens in front of the first end marker,
without or with an end marker behind them. -/
theorem recognize_iff (built : grammar.toNetwork = .ok network) {rule : Nat}
    {production : Production String} (defined : grammar.productions[rule]? = some production)
    (tokens : List Token) :
    network.ruleNamed? production.name = some rule ∧
      ∃ accepted, network.recognize rule tokens = .ok accepted ∧
        (accepted = true ↔ grammar.RuleDerives production.name (beforeEndMarker tokens) ∨
          grammar.RuleDerives production.name (beforeEndMarker tokens ++ [Token.endMarker])) := by
  classical
  obtain ⟨productions, resolved, laidOut⟩ := exists_layout built
  obtain ⟨unique, all⟩ := corresponds_of_resolve resolved
  obtain ⟨image, found, corresponds⟩ := exists_getElem?_of_forall₂ all defined
  have known : network.rule? rule = some ⟨image.name, startState rule, stopState rule⟩ := by
    rw [laidOut.rules rule, found]
    rfl
  have recognized : network.recognize rule tokens = .ok (network.recognitionFrom rule
      ⟨image.name, startState rule, stopState rule⟩ tokens).isAccepted := by
    rw [Network.recognize, Network.recognition_of_rule? known]
    rfl
  refine ⟨ruleNamed?_eq_some resolved laidOut defined, _, recognized, ?_⟩
  have accepting := network.accepting_recognitionFrom known tokens
  rw [Recognition.isAccepted, accepting, ruleDerives_iff resolved defined,
    ruleDerives_iff resolved defined, ← laidOut.path_iff found, ← laidOut.path_iff found]
  -- both languages are those of the paths now, and the run accepts by them
  by_cases long : network.Path (startState rule) (beforeEndMarker tokens ++ [Token.endMarker])
      (stopState rule)
  · simp [long]
  by_cases short : network.Path (startState rule) (beforeEndMarker tokens) (stopState rule)
  · simp [long, short]
  · simp [long, short]

/-- An atom between parentheses is accepted. -/
theorem recognize_iff_nestedParens :
    ∃ network, Samples.nestedParens.toNetwork = .ok network ∧
      network.recognize 0 [Samples.openParen, Samples.atom, Samples.closeParen] = .ok true := by
  cases built : Samples.nestedParens.toNetwork with
  | error fault =>
    have builds : Samples.nestedParens.toNetwork.toBool = true := by decide +kernel
    rw [built] at builds
    cases builds
  | ok network =>
    have defined : Samples.nestedParens.productions[0]? = some ⟨"E", _⟩ := rfl
    obtain ⟨-, accepted, recognized, decides⟩ := recognize_iff built defined
      [Samples.openParen, Samples.atom, Samples.closeParen]
    have accepts : accepted = true := decides.2 (Or.inl Samples.ruleDerives_nestedParens)
    exact ⟨network, rfl, accepts ▸ recognized⟩

end Grammar

end TransitionNetworks
