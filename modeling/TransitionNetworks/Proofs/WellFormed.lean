import TransitionNetworks.Proofs.Language
import TransitionNetworks.Proofs.Tree.Listing

/-! # Event lists that have a tree

A tree is assembled from a start rule and events exactly if they are well formed (`WellFormed`). For
the events left behind some others this is told by where the cursor is and which rules are open
(`Fits`), of which every event asks for something and changes one thing (`fits_enter_iff`,
`fits_exit_iff`, `fits_consume_iff`), as the event does with an assembly when it is accepted
(`Assembly.exists_pushAll_iff`).

A tree lists its completed events and has the tokens consumed, and depends on nothing else
(`ParseTree.assemble_iff_wellFormed`). -/

namespace TransitionNetworks

/-- **Well-formed events.** What a start rule and events have to be to have a tree on tokens. -/
structure WellFormed (network : Network) (tokens : Array Token) (startRule : Nat)
    (events : List Event) : Prop where
  /-- The start rule exists. -/
  start : ∃ rule, network.rule? startRule = some rule
  /-- Every rule entered exists. -/
  entered : ∀ rule, .enter rule ∈ events → ∃ named, network.rule? rule = some named
  /-- Tokens are consumed one after the other, from the first one on. -/
  inOrder : consumedIndexes events = List.range (consumedIndexes events).length
  /-- No more tokens are consumed than there are. -/
  inside : (consumedIndexes events).length ≤ tokens.size
  /-- The rules entered and exited are the beginning of a well-nested word. -/
  nested : ∃ rest, WellNested (brackets events ++ rest)

/-- **Events that fit** behind others, with the cursor at a token and some rules open. -/
structure Fits (network : Network) (tokens : Array Token) (cursor : Nat) (opened : List Nat)
    (events : List Event) : Prop where
  /-- Every rule entered exists. -/
  entered : ∀ rule, .enter rule ∈ events → ∃ named, network.rule? rule = some named
  /-- Tokens are consumed one after the other, from the cursor on. -/
  inOrder : consumedIndexes events = List.range' cursor (consumedIndexes events).length
  /-- No more tokens are consumed than there are. -/
  inside : cursor + (consumedIndexes events).length ≤ tokens.size
  /-- The rules entered and exited can be followed by something that closes the open rules. -/
  nested : ∃ rest, Closes opened (brackets events ++ rest)

variable {network : Network} {tokens : Array Token} {cursor : Nat} {opened : List Nat}
  {rest : List Event}

/-- Events are well formed if the start rule exists and they fit behind nothing. -/
theorem wellFormed_iff_fits {startRule : Nat} {events : List Event} :
    WellFormed network tokens startRule events ↔
      (∃ rule, network.rule? startRule = some rule) ∧ Fits network tokens 0 [] events := by
  constructor
  · rintro ⟨start, entered, inOrder, inside, rest, nested⟩
    refine ⟨start, entered, ?_, ?_, rest, closes_nil_iff.2 nested⟩
    · rwa [← List.range_eq_range']
    · rwa [Nat.zero_add]
  · rintro ⟨start, entered, inOrder, inside, rest, closes⟩
    refine ⟨start, entered, ?_, ?_, rest, closes_nil_iff.1 closes⟩
    · rwa [List.range_eq_range']
    · rwa [Nat.zero_add] at inside

/-- No events fit wherever the cursor is inside the input. -/
theorem fits_nil (opened : List Nat) (inside : cursor ≤ tokens.size) :
    Fits network tokens cursor opened [] := by
  obtain ⟨word, closes⟩ := exists_closes opened
  exact ⟨fun _ member => absurd member List.not_mem_nil, rfl, inside, word, closes⟩

/-- **A rule is entered** if it exists, and is open behind. -/
theorem fits_enter_iff {rule : Nat} :
    Fits network tokens cursor opened (.enter rule :: rest) ↔
      (∃ named, network.rule? rule = some named) ∧
        Fits network tokens cursor (rule :: opened) rest := by
  constructor
  · rintro ⟨entered, inOrder, inside, word, closes⟩
    exact ⟨entered rule (List.mem_cons_self ..),
      fun other member => entered other (List.mem_cons_of_mem _ member), inOrder, inside, word,
      closes_enter_iff.1 closes⟩
  · rintro ⟨known, entered, inOrder, inside, word, closes⟩
    refine ⟨?_, inOrder, inside, word, closes_enter_iff.2 closes⟩
    intro other member
    rcases List.mem_cons.1 member with same | member
    · cases same
      exact known
    · exact entered other member

/-- **A rule is exited** if it is the innermost of those open, and is closed behind. -/
theorem fits_exit_iff {rule : Nat} :
    Fits network tokens cursor opened (.exit rule :: rest) ↔
      ∃ outer, opened = rule :: outer ∧ Fits network tokens cursor outer rest := by
  constructor
  · rintro ⟨entered, inOrder, inside, word, closes⟩
    obtain ⟨outer, isOpen, closes⟩ := closes_exit_iff.1 closes
    exact ⟨outer, isOpen, fun other member => entered other (List.mem_cons_of_mem _ member),
      inOrder, inside, word, closes⟩
  · rintro ⟨outer, isOpen, entered, inOrder, inside, word, closes⟩
    exact ⟨fun other member => entered other (by simpa using member), inOrder, inside, word,
      closes_exit_iff.2 ⟨outer, isOpen, closes⟩⟩

/-- **A token is consumed** if it is the one at the cursor, and the cursor is behind it then. -/
theorem fits_consume_iff {index : Nat} :
    Fits network tokens cursor opened (.consume index :: rest) ↔
      index = cursor ∧ Fits network tokens (cursor + 1) opened rest := by
  have indexes : consumedIndexes (.consume index :: rest) = index :: consumedIndexes rest := rfl
  constructor
  · rintro ⟨entered, inOrder, inside, word, closes⟩
    rw [indexes, List.length_cons] at inOrder inside
    rw [List.range'_succ, List.cons.injEq] at inOrder
    exact ⟨inOrder.1, fun other member => entered other (List.mem_cons_of_mem _ member),
      inOrder.2, by omega, word, closes⟩
  · rintro ⟨rfl, entered, inOrder, inside, word, closes⟩
    refine ⟨fun other member => entered other (by simpa using member), ?_, ?_, word, closes⟩
    · rw [indexes, List.length_cons, List.range'_succ, ← inOrder]
    · rw [indexes, List.length_cons]
      omega

/-- A rule has a name if it exists. -/
theorem Network.exists_ruleName?_iff {rule : Nat} :
    (∃ name, network.ruleName? rule = some name) ↔
      ∃ named, network.rule? rule = some named := by
  simp [Blueprint.ruleName?]

namespace Assembly

/-- Accepted events keep the cursor inside the input. -/
theorem Accepts.inside {event : Event} {assembly later : Assembly}
    (accepted : Accepts network tokens event assembly later)
    (inside : assembly.cursor ≤ tokens.size) : later.cursor ≤ tokens.size := by
  cases accepted with
  | enter => exact inside
  | exit =>
    rw [cursor_exitInnermost]
    exact inside
  | consume read => exact (Array.getElem?_eq_some_iff.1 read).1

/-- **Events fit if the first is accepted** and the others fit behind it. -/
theorem fits_cons_iff {event : Event} {assembly : Assembly} :
    Fits network tokens assembly.cursor assembly.opens (event :: rest) ↔
      ∃ next, Accepts network tokens event assembly next ∧
        Fits network tokens next.cursor next.opens rest := by
  cases event with
  | enter rule =>
    rw [fits_enter_iff, ← Network.exists_ruleName?_iff]
    constructor
    · rintro ⟨⟨name, known⟩, fits⟩
      exact ⟨_, .enter known, fits⟩
    · rintro ⟨_, ⟨known⟩, fits⟩
      exact ⟨⟨_, known⟩, fits⟩
  | exit rule =>
    rw [fits_exit_iff]
    constructor
    · rintro ⟨outer, isOpen, fits⟩
      obtain ⟨innermost, others, here, rfl, rfl⟩ := List.map_eq_cons_iff.1 isOpen
      refine ⟨_, .exit here, ?_⟩
      rwa [cursor_exitInnermost, opens_exitInnermost, isOpen]
    · rintro ⟨_, accepted, fits⟩
      cases accepted with
      | exit isOpen =>
        rw [cursor_exitInnermost, opens_exitInnermost, opens, isOpen] at fits
        exact ⟨_, congrArg (List.map OpenBranch.rule) isOpen, fits⟩
  | consume index =>
    rw [fits_consume_iff]
    constructor
    · rintro ⟨rfl, fits⟩
      have bound : assembly.cursor < tokens.size := by
        have := fits.inside
        omega
      refine ⟨_, .consume (Array.getElem?_eq_getElem bound), ?_⟩
      rwa [opens_consumed]
    · rintro ⟨_, ⟨read⟩, fits⟩
      rw [opens_consumed] at fits
      exact ⟨rfl, fits⟩

/-- A list of events is taken if the first is accepted and the others are taken behind it. -/
theorem exists_pushAll_cons_iff {event : Event} {assembly : Assembly} :
    (∃ last, assembly.pushAll network tokens (event :: rest) = .ok last) ↔
      ∃ next, Accepts network tokens event assembly next ∧
        ∃ last, next.pushAll network tokens rest = .ok last := by
  simp only [pushAll_cons_eq_ok_iff]
  rw [exists_comm]
  simp only [exists_and_left]

/-- **Events are taken exactly if they fit.** -/
theorem exists_pushAll_iff {events : List Event} {assembly : Assembly}
    (inside : assembly.cursor ≤ tokens.size) :
    (∃ last, assembly.pushAll network tokens events = .ok last) ↔
      Fits network tokens assembly.cursor assembly.opens events := by
  induction events generalizing assembly with
  | nil => exact ⟨fun _ => fits_nil _ inside, fun _ => ⟨assembly, rfl⟩⟩
  | cons event rest ih =>
    rw [exists_pushAll_cons_iff, fits_cons_iff]
    constructor
    · rintro ⟨next, accepted, taken⟩
      exact ⟨next, accepted, (ih (accepted.inside inside)).1 taken⟩
    · rintro ⟨next, accepted, fits⟩
      exact ⟨next, accepted, (ih (accepted.inside inside)).2 fits⟩

/-- Accepted events move the cursor behind the token consumed. -/
theorem Accepts.cursor_eq {event : Event} {assembly later : Assembly}
    (accepted : Accepts network tokens event assembly later) :
    later.cursor = assembly.cursor + (consumedIndexes [event]).length := by
  cases accepted with
  | enter => rfl
  | exit => exact cursor_exitInnermost _
  | consume => rfl

/-- Events taken move the cursor behind the tokens consumed. -/
theorem cursor_of_pushAll {events : List Event} {assembly last : Assembly}
    (taken : assembly.pushAll network tokens events = .ok last) :
    last.cursor = assembly.cursor + (consumedIndexes events).length := by
  induction events generalizing assembly with
  | nil =>
    cases taken
    rfl
  | cons event rest ih =>
    obtain ⟨next, accepted, taken⟩ := pushAll_cons_eq_ok_iff.1 taken
    have split : consumedIndexes (event :: rest) =
        consumedIndexes [event] ++ consumedIndexes rest := List.filterMap_append (l := [event])
    rw [ih taken, accepted.cursor_eq, split, List.length_append, Nat.add_assoc]

/-- **Only the tokens in front of the cursor matter.** Events are taken alike on tokens that agree
in front of where the cursor comes to. -/
theorem pushAll_of_agree {others : Array Token} {events : List Event} {assembly last : Assembly}
    (taken : assembly.pushAll network tokens events = .ok last)
    (agree : ∀ index < last.cursor, others[index]? = tokens[index]?) :
    assembly.pushAll network others events = .ok last := by
  induction events generalizing assembly with
  | nil => exact taken
  | cons event rest ih =>
    obtain ⟨next, accepted, taken⟩ := pushAll_cons_eq_ok_iff.1 taken
    refine pushAll_cons_eq_ok_iff.2 ⟨next, ?_, ih taken⟩
    cases accepted with
    | enter known => exact .enter known
    | exit isOpen => exact .exit isOpen
    | @consume _ token read =>
      -- the cursor comes to a place behind the token
      have behind := cursor_of_pushAll taken
      have here : (assembly.consumed token).cursor = assembly.cursor + 1 := rfl
      exact .consume (by rw [agree assembly.cursor (by omega), read])

end Assembly

/-! ## Trees -/

/-- The tokens that events consume. -/
def consumedTokens (tokens : Array Token) (events : List Event) : List Token :=
  (consumedIndexes events).filterMap fun index => tokens[index]?

/-- What is consumed in order are the first tokens. -/
theorem filterMap_getElem?_range (tokens : Array Token) (count : Nat) :
    ((List.range count).filterMap fun index => tokens[index]?) = tokens.toList.take count := by
  induction count with
  | zero => rfl
  | succ count ih =>
    rw [List.range_succ, List.filterMap_append, ih, List.take_add_one, Array.getElem?_toList]
    cases read : tokens[count]? <;> simp [read]

/-- The exits of the rules still open consume nothing. -/
theorem consumedIndexes_completed (events : List Event) :
    consumedIndexes (completed events) = consumedIndexes events := by
  simp [consumedIndexes, completed, List.filterMap_append, List.filterMap_map, Event.consumed?,
    Function.comp_def]

/-- Well-formed events consume the first tokens. -/
theorem WellFormed.consumedTokens_eq {startRule : Nat} {events : List Event}
    (wellFormed : WellFormed network tokens startRule events) :
    consumedTokens tokens events = tokens.toList.take (consumedIndexes events).length := by
  rw [consumedTokens, wellFormed.inOrder, filterMap_getElem?_range, List.length_range]

namespace ParseTree

variable {startRule : Nat} {events : List Event} {tree : ParseTree}

/-- **Events have a tree exactly if they are well formed.** -/
theorem exists_assemble_iff :
    (∃ tree, assemble network tokens startRule events = .ok tree) ↔
      WellFormed network tokens startRule events := by
  rw [wellFormed_iff_fits, ← Network.exists_ruleName?_iff]
  simp only [assemble_eq_ok_iff]
  constructor
  · rintro ⟨_, name, last, known, taken, -⟩
    exact ⟨⟨name, known⟩, (Assembly.exists_pushAll_iff (Nat.zero_le _)).1 ⟨last, taken⟩⟩
  · rintro ⟨⟨name, known⟩, fits⟩
    have inside : (Assembly.rooted startRule name).cursor ≤ tokens.size := Nat.zero_le _
    obtain ⟨last, taken⟩ := (Assembly.exists_pushAll_iff inside).2 fits
    exact ⟨_, name, last, known, taken, rfl⟩

/-- A tree has the start rule as its root and the tokens consumed as its own. -/
theorem tokens_eq (assembled : assemble network tokens startRule events = .ok tree) :
    tree.root.rule = startRule ∧ tree.tokens = consumedTokens tokens events := by
  have wellFormed := exists_assemble_iff.1 ⟨tree, assembled⟩
  obtain ⟨name, last, known, taken, rfl⟩ := assemble_eq_ok_iff.1 assembled
  have reads := (Assembly.reads_start (Assembly.start_eq_ok_iff.2 ⟨name, known, rfl⟩)
    tokens).pushAll taken
  obtain ⟨root, -, leaves⟩ := reads_finish reads
  have cursor : last.cursor = 0 + (consumedIndexes events).length :=
    Assembly.cursor_of_pushAll taken
  refine ⟨root, ?_⟩
  rw [ParseTree.tokens, leaves, map_token_leavesUpTo, cursor, Nat.zero_add,
    wellFormed.consumedTokens_eq]

/-- **A tree is determined** by its start rule, its completed events and the tokens consumed. -/
theorem eq_of_assemble {others : Array Token} {events' : List Event} {tree' : ParseTree}
    (assembled : assemble network tokens startRule events = .ok tree)
    (assembled' : assemble network others startRule events' = .ok tree')
    (sameEvents : completed events = completed events')
    (sameTokens : consumedTokens tokens events = consumedTokens others events') : tree = tree' := by
  have wellFormed := exists_assemble_iff.1 ⟨tree, assembled⟩
  have wellFormed' := exists_assemble_iff.1 ⟨tree', assembled'⟩
  obtain ⟨name, last, known, taken, -, rfl⟩ := exists_completed assembled
  obtain ⟨name', last', known', taken', -, rfl⟩ := exists_completed assembled'
  rw [known] at known'
  cases known'
  -- the first tokens are the same
  have indexes : consumedIndexes events' = consumedIndexes events := by
    rw [← consumedIndexes_completed, ← sameEvents, consumedIndexes_completed]
  rw [wellFormed.consumedTokens_eq, wellFormed'.consumedTokens_eq, indexes] at sameTokens
  have cursor : last.cursor = 0 + (consumedIndexes (completed events)).length :=
    Assembly.cursor_of_pushAll taken
  rw [consumedIndexes_completed, Nat.zero_add] at cursor
  have agree : ∀ index < last.cursor, others[index]? = tokens[index]? := by
    intro index inFront
    rw [cursor] at inFront
    have same := congrArg (fun list => list[index]?) sameTokens
    simp only [List.getElem?_take_of_lt inFront, Array.getElem?_toList] at same
    exact same.symm
  have taken := Assembly.pushAll_of_agree taken agree
  rw [sameEvents, taken'] at taken
  cases taken
  rfl

/-- **A tree is assembled exactly from well-formed events, and loses nothing.** A start rule and
events have a tree exactly if they are well formed. The tree lists its events, followed by an exit
of every rule still open. So two trees over one network are equal exactly if their start rules,
their completed events and the tokens consumed are. -/
theorem assemble_iff_wellFormed (network : Network) :
    (∀ tokens startRule events,
      (∃ tree, assemble network tokens startRule events = .ok tree) ↔
        WellFormed network tokens startRule events) ∧
    (∀ tokens startRule events tree, assemble network tokens startRule events = .ok tree →
      tree.listing = completed events) ∧
    ∀ tokens startRule events tree others startRule' events' tree',
      assemble network tokens startRule events = .ok tree →
      assemble network others startRule' events' = .ok tree' →
        (tree = tree' ↔ startRule = startRule' ∧ completed events = completed events' ∧
          consumedTokens tokens events = consumedTokens others events') := by
  refine ⟨fun _ _ _ => exists_assemble_iff, fun _ _ _ _ => listing_eq, ?_⟩
  intro tokens startRule events tree others startRule' events' tree' assembled assembled'
  constructor
  · rintro rfl
    -- the tree has all three
    obtain ⟨root, sameTokens⟩ := tokens_eq assembled
    obtain ⟨root', sameTokens'⟩ := tokens_eq assembled'
    exact ⟨root.symm.trans root', (listing_eq assembled).symm.trans (listing_eq assembled'),
      sameTokens.symm.trans sameTokens'⟩
  · rintro ⟨rfl, sameEvents, sameTokens⟩
    exact eq_of_assemble assembled assembled' sameEvents sameTokens

/-- A rule of the sample left open around a seven has the tree of the rule exited, also if there are
more tokens behind. -/
theorem assemble_iff_wellFormed_doubling :
    ∃ tree, assemble doubling #[7] 0 [.enter 0, .consume 0] = .ok tree ∧
      assemble doubling #[7, Token.endMarker] 0 [.enter 0, .consume 0, .exit 0] = .ok tree ∧
      tree.listing = [.enter 0, .consume 0, .exit 0] := by
  obtain ⟨assembles, lists, same⟩ := assemble_iff_wellFormed doubling
  have opened : WellFormed doubling #[7] 0 [.enter 0, .consume 0] :=
    ⟨⟨_, rfl⟩, by simp [doubling, Blueprint.rule?], rfl, by decide,
      [.exit 0], .nested .nil .nil⟩
  have exited : WellFormed doubling #[7, Token.endMarker] 0 [.enter 0, .consume 0, .exit 0] :=
    ⟨⟨_, rfl⟩, by simp [doubling, Blueprint.rule?], rfl, by decide, [], .nested .nil .nil⟩
  obtain ⟨tree, assembled⟩ := (assembles _ _ _).2 opened
  obtain ⟨tree', assembled'⟩ := (assembles _ _ _).2 exited
  have equal := (same _ _ _ _ _ _ _ _ assembled assembled').2 ⟨rfl, rfl, rfl⟩
  exact ⟨tree, assembled, equal ▸ assembled', lists _ _ _ _ assembled⟩

end ParseTree

end TransitionNetworks
