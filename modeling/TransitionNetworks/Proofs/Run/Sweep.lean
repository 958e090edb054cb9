import TransitionNetworks.Proofs.Run.Closure
import TransitionNetworks.Recognition

/-! # What a finished run has found

While a run sweeps over its input, everything in front of the position it has come to is done
(`Findings.Swept`): the items there are settled, and have led across the token at their position
(`Findings.Scanned`). A visit brings the sweep one position further (`Findings.Swept.visit`), a
sweep to the end of the input, and closing the last position ends the run (`Findings.Finished`).

`Network.finished_recognitionFrom` says so of a run. -/

namespace TransitionNetworks

/-- Any number of steps that scan the token at a position. -/
abbrev Scanning (network : Network) (position : Nat) (token : Token) : Findings → Findings → Prop :=
  Relation.ReflTransGen (ScanningStep network position token)

section

variable {network : Network} {findings later : Findings} {position : Nat} {token : Token}

/-- Findings grow when a token is scanned. -/
theorem Scanning.grows (steps : Scanning network position token findings later) :
    findings.Extends later := by
  induction steps with
  | refl => exact Findings.Extends.refl findings
  | tail _ step ih => exact ih.trans step.grows

/-- Scanning a token leaves the stacks alone. -/
theorem Scanning.stackGraph_eq (steps : Scanning network position token findings later) :
    later.stackGraph = findings.stackGraph := by
  induction steps with
  | refl => rfl
  | tail _ step ih =>
    cases step with
    | scan => rw [Findings.stackGraph_discover, ih]

/-- Scanning a token finds items behind it only. -/
theorem Scanning.has_iff {other : Nat} (steps : Scanning network position token findings later)
    (different : other ≠ position + 1) (item : Item) :
    later.Has other item ↔ findings.Has other item := by
  induction steps with
  | refl => rfl
  | tail _ step ih =>
    cases step with
    | scan => simp [different, ih]

end

/-- The first token left of an input is the one at the position, and the others are left behind it.
-/
theorem getElem?_and_drop_of_drop_eq_cons {input rest : List Token} {position : Nat} {token : Token}
    (unread : input.drop position = token :: rest) :
    input[position]? = some token ∧ input.drop (position + 1) = rest := by
  constructor
  · rw [← Nat.add_zero position, ← List.getElem?_drop, unread]
    rfl
  · rw [← List.drop_drop, unread]
    rfl

namespace Findings

/-- An item has led across a token at its position. -/
def Scanned (network : Network) (position : Nat) (token : Token) (item : Item)
    (findings : Findings) : Prop :=
  ∀ matcher target, network.Offers item.state (.terminal matcher target) →
    matcher.accepts token = true → findings.Has (position + 1) (item.withState target)

variable {network : Network} {start : Nat} {input : List Token} {findings later : Findings}
  {position : Nat} {item : Item} {token : Token}

/-- An item that has led across a token has done so for good. -/
theorem Scanned.mono (grown : findings.Extends later)
    (scanned : findings.Scanned network position token item) :
    later.Scanned network position token item :=
  fun matcher target offers accepts => grown.has (scanned matcher target offers accepts)

/-- Scanning a token keeps findings linked. -/
theorem Linked.scanning (linked : findings.Linked network start input)
    (read : input[position]? = some token)
    (steps : Scanning network position token findings later) :
    later.Linked network start input := by
  induction steps with
  | refl => exact linked
  | tail _ step ih => exact ih.scanningStep read step

/-- Finding items without a change of the stacks unsettles nothing. -/
theorem Settled.of_stackGraph_eq (linked : findings.Linked network start input)
    (grown : findings.Extends later) (same : later.stackGraph = findings.stackGraph)
    (found : findings.Has position item) (settled : findings.Settled network position item) :
    later.Settled network position item := by
  apply settled.mono linked grown found
  intro frame _ _ _ caller registered new
  rw [same] at registered
  exact absurd registered new

/-! ## Scanning a position -/

/-- Consuming a token by a transition that an item offers is a scanning step or nothing, and finds
what is behind it. -/
theorem consume_scanning (found : findings.Has position item) (token : Token)
    {transition : Transition} (offers : network.Offers item.state transition) :
    let later := findings.consume position token item transition
    Scanning network position token findings later ∧
      ∀ matcher target, transition = .terminal matcher target → matcher.accepts token = true →
        later.Has (position + 1) (item.withState target) := by
  cases transition with
  | call => exact ⟨.refl, fun _ _ same => by cases same⟩
  | epsilon => exact ⟨.refl, fun _ _ same => by cases same⟩
  | terminal matcher target =>
    by_cases accepts : matcher.accepts token = true
    · simp only [consume, if_pos accepts]
      refine ⟨.single (.scan found offers accepts), ?_⟩
      intro matcher target same _
      cases same
      exact (has_discover _ _ _ _ _ _).2 (Or.inr ⟨rfl, rfl⟩)
    · simp only [consume, if_neg accepts]
      refine ⟨.refl, ?_⟩
      intro matcher target same accepts'
      cases same
      exact absurd accepts' accepts

/-- Consuming a token by transitions one after the other finds what is behind each of them. -/
theorem foldl_consume_scanning (found : findings.Has position item) (token : Token)
    (transitions : List Transition)
    (offers : ∀ transition ∈ transitions, network.Offers item.state transition) :
    let later := transitions.foldl
      (fun findings transition => findings.consume position token item transition) findings
    Scanning network position token findings later ∧
      ∀ matcher target, .terminal matcher target ∈ transitions → matcher.accepts token = true →
        later.Has (position + 1) (item.withState target) := by
  induction transitions generalizing findings with
  | nil => exact ⟨.refl, fun _ _ member => absurd member List.not_mem_nil⟩
  | cons transition rest ih =>
    obtain ⟨first, here⟩ := consume_scanning found token
      (offers transition (List.mem_cons_self ..))
    obtain ⟨steps, others⟩ := ih ((Scanning.grows first).has found)
      fun other member => offers other (List.mem_cons_of_mem _ member)
    refine ⟨first.trans steps, ?_⟩
    intro matcher target member accepts
    rcases List.mem_cons.1 member with same | member
    · exact (Scanning.grows steps).has (here matcher target same.symm accepts)
    · exact others matcher target member accepts

/-- Scanning a token from an item takes scanning steps and leads across the token. -/
theorem Linked.scan_scanning (linked : findings.Linked network start input)
    (found : findings.Has position item) (token : Token) :
    Scanning network position token findings (findings.scan network position token item) ∧
      (findings.scan network position token item).Scanned network position token item := by
  obtain ⟨state, here⟩ := linked.inState position item found
  cases stop : state.stopRule? with
  | some rule =>
    have same : findings.scan network position token item = findings := by simp [scan, here, stop]
    rw [same]
    exact ⟨.refl, fun matcher target offers _ => absurd ⟨state, here, stop⟩ offers.not_stopsIn⟩
  | none =>
    have same : findings.scan network position token item = state.transitions.foldl
        (fun findings transition => findings.consume position token item transition) findings := by
      simp [scan, here, stop]
    obtain ⟨steps, all⟩ := foldl_consume_scanning found token state.transitions
      fun transition member => ⟨state, here, stop, member⟩
    rw [same]
    refine ⟨steps, ?_⟩
    intro matcher target offers accepts
    obtain ⟨-, member⟩ := offers.of_state? here
    exact all matcher target member accepts

/-- Scanning a token from all items of a position leads each of them across the token. -/
theorem Linked.scanAll_scanning (linked : findings.Linked network start input)
    (read : input[position]? = some token) :
    Scanning network position token findings (findings.scanAll network position token) ∧
      ∀ item, findings.Has position item →
        (findings.scanAll network position token).Scanned network position token item := by
  -- by induction on the items still to be scanned from
  have fold : ∀ (items : List Item) (findings : Findings), findings.Linked network start input →
      (∀ item ∈ items, findings.Has position item) →
      let later := items.foldl (fun findings item => findings.scan network position token item)
        findings
      Scanning network position token findings later ∧
        ∀ item ∈ items, later.Scanned network position token item := by
    intro items
    induction items with
    | nil => exact fun _ _ _ => ⟨.refl, fun _ member => absurd member List.not_mem_nil⟩
    | cons item rest ih =>
      intro findings linked found
      obtain ⟨first, here⟩ := linked.scan_scanning (found item (List.mem_cons_self ..)) token
      obtain ⟨steps, others⟩ := ih _ (linked.scanning read first) fun other member =>
        (Scanning.grows first).has (found other (List.mem_cons_of_mem _ member))
      refine ⟨first.trans steps, ?_⟩
      intro other member
      rcases List.mem_cons.1 member with rfl | member
      · exact here.mono (Scanning.grows steps)
      · exact others other member
  have all := fold (findings.chart.itemsAt position).toList findings linked fun item found => found
  rwa [Enumeration.toList, Array.foldl_toList] at all

/-! ## The sweep -/

/-- **A sweep up to a position.** Nothing is found behind the position, no call has begun at it or
behind it, and the items in front of it are settled and have led across their tokens. -/
structure Swept (network : Network) (start : Nat) (input : List Token) (position : Nat)
    (findings : Findings) : Prop where
  /-- The findings are linked. -/
  linked : findings.Linked network start input
  /-- The run began with the start state. -/
  seeded : findings.Has 0 ⟨start, 0, emptyStack⟩
  /-- Calls began in front of the position. -/
  began : ∀ node frame, findings.stackGraph.frame? node = some frame → frame.position < position
  /-- Nothing is found behind the position. -/
  bounded : ∀ other item, findings.Has other item → other ≤ position
  /-- The items in front of the position are settled. -/
  settled : ∀ other item, other < position → findings.Has other item →
    findings.Settled network other item
  /-- The items in front of the position have led across their tokens. -/
  scanned : ∀ other item token, other < position → findings.Has other item →
    input[other]? = some token → findings.Scanned network other token item

/-- A sweep that has come to a position without items has come to every later one. -/
theorem Swept.skip (swept : findings.Swept network start input position)
    (none : findings.chart.countAt position = 0) {later : Nat} (behind : position ≤ later) :
    findings.Swept network start input later := by
  -- there are no items at the position, so all are in front of it
  have before : ∀ other item, findings.Has other item → other < position := by
    intro other item found
    apply Nat.lt_of_le_of_ne (swept.bounded other item found)
    rintro rfl
    obtain ⟨n, known, -⟩ := (findings.has_iff_exists_item? other item).1 found
    omega
  refine ⟨swept.linked, swept.seeded, ?_, ?_, ?_, ?_⟩
  · intro node frame here
    have began := swept.began node frame here
    omega
  · intro other item found
    have bounded := swept.bounded other item found
    omega
  · intro other item _ found
    exact swept.settled other item (before other item found) found
  · intro other item token _ found
    exact swept.scanned other item token (before other item found) found

/-- Closing the position that a sweep has come to settles what is there and unsettles nothing in
front. -/
theorem Swept.close (swept : findings.Swept network start input position) :
    (findings.close network position).Linked network start input ∧
      Closing network position findings (findings.close network position) ∧
      ∀ other item, other ≤ position → (findings.close network position).Has other item →
        (findings.close network position).Settled network other item := by
  have steps := swept.linked.close_closing position
  refine ⟨swept.linked.closing steps, steps, ?_⟩
  intro other item before found
  by_cases here : other = position
  · subst here
    exact swept.linked.settled_close found
  · -- in front of the position nothing new is found, and what was settled there stays so
    have old := (Closing.has_iff steps here item).1 found
    have settled := swept.settled other item (by omega) old
    exact settled.closing swept.linked steps before old

/-- Noting something that is no find leaves a sweep where it is. -/
theorem Swept.note (swept : findings.Swept network start input position) {occurrence : Occurrence}
    (noFind : occurrence.find? = none) :
    (findings.note occurrence).Swept network start input position where
  linked := swept.linked.note noFind
  seeded := swept.seeded
  began := swept.began
  bounded := swept.bounded
  settled other item before found := (swept.settled other item before found).of_stackGraph_eq
    swept.linked (extends_note findings noFind) rfl found
  scanned other item token before found read := swept.scanned other item token before found read

/-- Scanning the token at a position that is closed brings the sweep one position further. -/
theorem Swept.scanAll (swept : findings.Swept network start input position)
    (read : input[position]? = some token) :
    ((findings.close network position).scanAll network position token).Swept network start input
      (position + 1) := by
  obtain ⟨linkedClosed, closing, settled⟩ := swept.close
  obtain ⟨scanning, scanned⟩ := linkedClosed.scanAll_scanning read
  have closed := Closing.grows closing
  have grown := Scanning.grows scanning
  have sameStacks := Scanning.stackGraph_eq scanning
  refine ⟨linkedClosed.scanning read scanning, grown.has (closed.has swept.seeded), ?_, ?_, ?_, ?_⟩
  · -- calls begin while the position is closed, not while its token is scanned
    intro node frame here
    rw [sameStacks] at here
    rcases Closing.frame?_of_frame? closing here with old | now
    · have began := swept.began node frame old
      omega
    · omega
  · intro other item found
    by_cases next : other = position + 1
    · omega
    by_cases here : other = position
    · omega
    have there := (Scanning.has_iff scanning next item).1 found
    have old := (Closing.has_iff closing here item).1 there
    have bounded := swept.bounded other item old
    omega
  · -- what closing has settled, scanning does not unsettle
    intro other item before found
    have there := (Scanning.has_iff scanning (by omega) item).1 found
    have settled := settled other item (by omega) there
    exact settled.of_stackGraph_eq linkedClosed grown sameStacks there
  · intro other item token' before found read'
    have there := (Scanning.has_iff scanning (by omega) item).1 found
    by_cases here : other = position
    · subst here
      rw [read] at read'
      cases read'
      exact scanned item there
    · have old := (Closing.has_iff closing here item).1 there
      exact (swept.scanned other item token' (by omega) old read').mono (closed.trans grown)

/-- **A visit brings the sweep one position further.** -/
theorem Swept.visit (swept : findings.Swept network start input position)
    (read : input[position]? = some token) :
    (findings.visit network position token).Swept network start input (position + 1) :=
  (swept.scanAll read).note rfl

/-- **A sweep comes to the end of the input,** also if it ends early. -/
theorem Swept.sweep {rest : List Token} (swept : findings.Swept network start input position)
    (unread : input.drop position = rest) (inside : position ≤ input.length) :
    (findings.sweep network position rest).Swept network start input input.length := by
  induction rest generalizing findings position with
  | nil =>
    have ends : input.length ≤ position := List.drop_eq_nil_iff.1 unread
    have here : position = input.length := by omega
    subst here
    exact swept
  | cons token rest ih =>
    obtain ⟨read, left⟩ := getElem?_and_drop_of_drop_eq_cons unread
    have next := swept.visit read
    have more : position + 1 ≤ input.length := (List.getElem?_eq_some_iff.1 read).1
    by_cases none : (findings.visit network position token).chart.countAt (position + 1) = 0
    · -- the sweep ends early, and what is done is done up to the end of the input
      rw [Findings.sweep_cons_of_eq_zero none]
      exact next.skip none more
    · rw [Findings.sweep_cons_of_ne_zero none]
      exact ih next left more

/-- **What every visit preserves,** a sweep preserves. -/
theorem Swept.sweep_invariant (holds : Findings → Prop) {rest : List Token}
    (swept : findings.Swept network start input position) (unread : input.drop position = rest)
    (visits : ∀ other token findings, position ≤ other →
      findings.Swept network start input other → input[other]? = some token → holds findings →
        holds (findings.visit network other token))
    (first : holds findings) : holds (findings.sweep network position rest) := by
  induction rest generalizing findings position with
  | nil => exact first
  | cons token rest ih =>
    obtain ⟨read, left⟩ := getElem?_and_drop_of_drop_eq_cons unread
    have next := visits position token findings (Nat.le_refl position) swept read first
    by_cases none : (findings.visit network position token).chart.countAt (position + 1) = 0
    · rw [Findings.sweep_cons_of_eq_zero none]
      exact next
    · rw [Findings.sweep_cons_of_ne_zero none]
      refine ih (swept.visit read) left ?_ next
      intro other token findings behind
      exact visits other token findings (Nat.le_of_succ_le behind)

/-- **Finished findings.** Everything found is settled and has led across its token. -/
structure Finished (network : Network) (start : Nat) (input : List Token) (findings : Findings) :
    Prop where
  /-- The findings are linked. -/
  linked : findings.Linked network start input
  /-- The run began with the start state. -/
  seeded : findings.Has 0 ⟨start, 0, emptyStack⟩
  /-- Nothing is found behind the end of the input. -/
  bounded : ∀ position item, findings.Has position item → position ≤ input.length
  /-- The items are settled. -/
  settled : ∀ position item, findings.Has position item → findings.Settled network position item
  /-- The items have led across their tokens. -/
  scanned : ∀ position item token, findings.Has position item → input[position]? = some token →
    findings.Scanned network position token item

/-- Settling the last position finishes a sweep. -/
theorem Swept.settle {last : Nat} (swept : findings.Swept network start input input.length)
    (length : input.length = last + 1) :
    (findings.settle network last).Finished network start input := by
  unfold Findings.settle
  rw [← length]
  by_cases none : findings.chart.countAt input.length = 0
  · rw [if_pos none]
    have beyond := swept.skip none (Nat.le_succ input.length)
    refine ⟨swept.linked, swept.seeded, swept.bounded, ?_, ?_⟩
    · intro position item found
      exact beyond.settled position item (Nat.lt_succ_of_le (swept.bounded _ _ found)) found
    · intro position item token found
      exact beyond.scanned position item token (Nat.lt_succ_of_le (swept.bounded _ _ found)) found
  · rw [if_neg none]
    obtain ⟨linked, closing, settled⟩ := swept.close
    have grown := Closing.grows closing
    have bounded : ∀ position item, (findings.close network input.length).Has position item →
        position ≤ input.length := by
      intro position item found
      by_cases here : position = input.length
      · exact Nat.le_of_eq here
      · exact swept.bounded position item ((Closing.has_iff closing here item).1 found)
    refine ⟨linked, grown.has swept.seeded, bounded, ?_, ?_⟩
    · intro position item found
      exact settled position item (bounded position item found) found
    · -- at the last position there is no token left to lead across
      intro position item token found read
      have before : position < input.length := (List.getElem?_eq_some_iff.1 read).1
      have old := (Closing.has_iff closing (Nat.ne_of_lt before) item).1 found
      exact (swept.scanned position item token before old read).mono grown

/-- Noting something that is no find leaves finished findings finished. -/
theorem Finished.note (finished : findings.Finished network start input) {occurrence : Occurrence}
    (noFind : occurrence.find? = none) :
    (findings.note occurrence).Finished network start input where
  linked := finished.linked.note noFind
  seeded := finished.seeded
  bounded := finished.bounded
  settled position item found := (finished.settled position item found).of_stackGraph_eq
    finished.linked (extends_note findings noFind) rfl found
  scanned position item token found read := finished.scanned position item token found read

end Findings

/-! ## Runs -/

/-- The input of a run: the tokens in front of the first end marker, and an end marker. -/
def inputOf (tokens : List Token) : List Token := beforeEndMarker tokens ++ [Token.endMarker]

/-- The input has the tokens in front of the first end marker and one more. -/
@[simp] theorem length_inputOf (tokens : List Token) :
    (inputOf tokens).length = (beforeEndMarker tokens).length + 1 := by
  simp [inputOf]

namespace Network

/-- A run begins with findings that are swept up to the first position. -/
theorem swept_seed (network : Network) {startRule : Nat} {rule : Rule}
    (known : network.rule? startRule = some rule) (tokens input : List Token) (last : Nat) :
    ((Findings.initial.noteIgnored tokens last).discover 0 ⟨rule.start, 0, emptyStack⟩
      .seed).Swept network rule.start input 0 := by
  -- nothing is found in front of the seed, and no call has begun
  have noted : (Findings.initial.noteIgnored tokens last).Linked network rule.start input ∧
      (∀ position item, ¬ (Findings.initial.noteIgnored tokens last).Has position item) ∧
      ∀ node, (Findings.initial.noteIgnored tokens last).stackGraph.frame? node = none := by
    unfold Findings.noteIgnored
    dsimp only
    split
    · exact ⟨Findings.linked_initial network rule.start input, Findings.not_has_initial,
        StackGraph.frame?_initial⟩
    · exact ⟨(Findings.linked_initial network rule.start input).note rfl, Findings.not_has_initial,
        StackGraph.frame?_initial⟩
  obtain ⟨linked, nothing, noFrames⟩ := noted
  have seeded := linked.discover .seed (fun _ none => absurd none List.not_mem_nil)
    (network.exists_state?_start known) (Or.inl ⟨rfl, rfl⟩)
  refine ⟨seeded, ?_, ?_, ?_, ?_, ?_⟩
  · exact (Findings.has_discover _ _ _ _ _ _).2 (Or.inr ⟨rfl, rfl⟩)
  · intro node frame here
    rw [Findings.stackGraph_discover, noFrames] at here
    cases here
  · intro other item found
    rcases (Findings.has_discover _ _ _ _ _ _).1 found with old | ⟨same, -⟩
    · exact absurd old (nothing other item)
    · omega
  · intro other item before
    omega
  · intro other item token before
    omega

/-- From a rule that exists a run succeeds. -/
theorem recognition_of_rule? {network : Network} {startRule : Nat} {rule : Rule}
    (known : network.rule? startRule = some rule) (tokens : List Token) :
    network.recognition startRule tokens = .ok (network.recognitionFrom startRule rule tokens) := by
  rw [recognition, known]

/-- A run that succeeds is from a rule that exists. -/
theorem exists_rule?_of_recognition {network : Network} {startRule : Nat} {tokens : List Token}
    {recognition : Recognition} (ran : network.recognition startRule tokens = .ok recognition) :
    ∃ rule, network.rule? startRule = some rule ∧
      network.recognitionFrom startRule rule tokens = recognition := by
  rw [Network.recognition] at ran
  cases known : network.rule? startRule with
  | none =>
    rw [known] at ran
    cases ran
  | some rule =>
    rw [known] at ran
    exact ⟨rule, rfl, Except.ok.inj ran⟩

/-- **A run finishes.** Its findings are finished, and it accepts where they say. -/
theorem finished_recognitionFrom (network : Network) {startRule : Nat} {rule : Rule}
    (known : network.rule? startRule = some rule) (tokens : List Token) :
    let recognition := network.recognitionFrom startRule rule tokens
    recognition.findings.Finished network rule.start (inputOf tokens) ∧
      recognition.accepting = recognition.findings.acceptance? ⟨rule.stop, 0, emptyStack⟩
        (beforeEndMarker tokens).length := by
  have swept := (network.swept_seed known tokens (inputOf tokens)
    (beforeEndMarker tokens).length).sweep List.drop_zero (Nat.zero_le _)
  have finished := swept.settle (length_inputOf tokens)
  unfold inputOf at finished ⊢
  unfold recognitionFrom
  dsimp only
  generalize Findings.settle network (beforeEndMarker tokens).length _ = settled at finished ⊢
  -- the verdict is noted, which is no find
  unfold Findings.noteVerdict
  split
  · exact ⟨finished.note rfl, rfl⟩
  · exact ⟨finished.note rfl, rfl⟩

end Network

end TransitionNetworks
