import TransitionNetworks.Tree.Assembly

/-! # What an assembly does with events

An event that fits is accepted in one of three ways (`Assembly.Accepts`), and a list of events that
fit is accepted one after the other (`Assembly.pushAll_cons_eq_ok_iff`).

What happens inside the innermost open rule adds nodes to the assembly, adds their ids to the
children of that rule, and moves the cursor. This is `Assembly.grow`: growths add up
(`Assembly.grow_grow`), a token consumed is a growth (`Assembly.consumed_eq_grow`), and so is a rule
entered, grown inside and exited (`Assembly.exitInnermost_grow_opened`). -/

namespace TransitionNetworks

namespace Assembly

/-- Enter a rule with a given name. -/
def opened (rule : Nat) (name : String) (assembly : Assembly) : Assembly :=
  { assembly with openBranches := ⟨rule, name, assembly.cursor, #[]⟩ :: assembly.openBranches }

/-- Consume a token at the cursor. -/
def consumed (token : Token) (assembly : Assembly) : Assembly :=
  { assembly.attach (.leaf ⟨assembly.cursor, token⟩) with cursor := assembly.cursor + 1 }

/-- Exiting a rule consumes nothing. -/
@[simp] theorem cursor_exitInnermost (assembly : Assembly) :
    assembly.exitInnermost.cursor = assembly.cursor := by
  obtain ⟨cursor, nodes, root, openBranches⟩ := assembly
  cases openBranches with
  | nil => rfl
  | cons innermost outer => exact cursor_attach _ _

/-- Exiting rules consumes nothing. -/
@[simp] theorem cursor_exitMany (count : Nat) (assembly : Assembly) :
    (assembly.exitMany count).cursor = assembly.cursor := by
  induction count generalizing assembly with
  | zero => rfl
  | succ count ih => exact (ih _).trans assembly.cursor_exitInnermost

/-- **Accepted events.** How an event that fits changes an assembly. -/
inductive Accepts (network : Network) (tokens : Array Token) : Event → Assembly → Assembly → Prop
  /-- A rule that exists is entered. -/
  | enter {assembly : Assembly} {rule : Nat} {name : String}
      (known : network.ruleName? rule = some name) :
      Accepts network tokens (.enter rule) assembly (assembly.opened rule name)
  /-- The innermost open rule is exited. -/
  | exit {assembly : Assembly} {innermost : OpenBranch} {outer : List OpenBranch}
      (isOpen : assembly.openBranches = innermost :: outer) :
      Accepts network tokens (.exit innermost.rule) assembly assembly.exitInnermost
  /-- The next token is consumed. -/
  | consume {assembly : Assembly} {token : Token}
      (read : tokens[assembly.cursor]? = some token) :
      Accepts network tokens (.consume assembly.cursor) assembly (assembly.consumed token)

variable {network : Network} {tokens : Array Token}

/-- **An event is taken without a fault exactly if it is accepted.** -/
theorem push_eq_none_iff {event : Event} {assembly later : Assembly} :
    assembly.push network tokens event = (none, later) ↔
      Accepts network tokens event assembly later := by
  constructor
  · -- in every branch but one the event is refused with a fault
    intro taken
    cases event with
    | enter rule =>
      simp only [push, Assembly.enter, OpenBranch.enter] at taken
      cases known : network.ruleName? rule with
      | none => simp [known] at taken
      | some name =>
        simp only [known, Prod.mk.injEq, true_and] at taken
        subst taken
        exact .enter known
    | exit rule =>
      simp only [push, Assembly.exit] at taken
      cases isOpen : assembly.openBranches with
      | nil => simp [isOpen] at taken
      | cons innermost outer =>
        by_cases same : innermost.rule = rule
        · simp only [isOpen, if_pos same, Prod.mk.injEq, true_and] at taken
          subst same taken
          exact .exit isOpen
        · simp [isOpen, same] at taken
    | consume index =>
      simp only [push, Assembly.consume] at taken
      by_cases next : index = assembly.cursor
      · subst next
        cases read : tokens[assembly.cursor]? with
        | none => simp [read] at taken
        | some token =>
          simp only [read, if_true, Prod.mk.injEq, true_and] at taken
          subst taken
          rw [cursor_attach]
          exact .consume read
      · simp [next] at taken
  · intro accepted
    cases accepted with
    | enter known => simp [push, Assembly.enter, OpenBranch.enter, known, opened]
    | exit isOpen => simp [push, Assembly.exit, isOpen]
    | consume read => simp [push, Assembly.consume, read, consumed]

@[simp] theorem pushAll_nil (assembly : Assembly) :
    assembly.pushAll network tokens [] = .ok assembly := rfl

/-- A list of events is taken if the first is accepted and the others are taken behind it. -/
theorem pushAll_cons_eq_ok_iff {event : Event} {rest : List Event} {assembly last : Assembly} :
    assembly.pushAll network tokens (event :: rest) = .ok last ↔
      ∃ next, Accepts network tokens event assembly next ∧
        next.pushAll network tokens rest = .ok last := by
  simp only [← push_eq_none_iff]
  rw [pushAll]
  rcases pushed : assembly.push network tokens event with ⟨_ | fault, next⟩ <;> simp

/-- **What accepted events preserve,** a list of them preserves. -/
theorem pushAll_invariant (holds : Assembly → Prop)
    (preserved : ∀ event assembly later, Accepts network tokens event assembly later →
      holds assembly → holds later)
    {events : List Event} {assembly last : Assembly}
    (taken : assembly.pushAll network tokens events = .ok last) (first : holds assembly) :
    holds last := by
  induction events generalizing assembly with
  | nil =>
    cases taken
    exact first
  | cons event rest ih =>
    obtain ⟨next, accepted, taken⟩ := pushAll_cons_eq_ok_iff.1 taken
    exact ih taken (preserved event assembly next accepted first)

/-- What exiting a rule preserves, exiting several preserves. -/
theorem exitMany_invariant (holds : Assembly → Prop)
    (preserved : ∀ assembly : Assembly, holds assembly → holds assembly.exitInnermost)
    (count : Nat) {assembly : Assembly} (first : holds assembly) :
    holds (assembly.exitMany count) := by
  induction count generalizing assembly with
  | zero => exact first
  | succ count ih => exact ih (preserved assembly first)

/-- A list of events in two parts is taken if the parts are. -/
theorem pushAll_append_eq_ok_iff {first second : List Event} {assembly last : Assembly} :
    assembly.pushAll network tokens (first ++ second) = .ok last ↔
      ∃ middle, assembly.pushAll network tokens first = .ok middle ∧
        middle.pushAll network tokens second = .ok last := by
  induction first generalizing assembly with
  | nil => simp
  | cons event rest ih =>
    rw [List.cons_append, pushAll_cons_eq_ok_iff]
    simp only [ih, pushAll_cons_eq_ok_iff]
    constructor
    · rintro ⟨next, accepted, middle, front, back⟩
      exact ⟨middle, ⟨next, accepted, front⟩, back⟩
    · rintro ⟨middle, ⟨next, accepted, front⟩, back⟩
      exact ⟨next, accepted, middle, front, back⟩

/-- The assembly that starts with a rule as its root. -/
def rooted (rule : Nat) (name : String) : Assembly := ⟨0, #[], ⟨rule, name, 0, #[]⟩, []⟩

/-- A tree is started from a rule that exists. -/
theorem start_eq_ok_iff {startRule : Nat} {assembly : Assembly} :
    start network startRule = .ok assembly ↔
      ∃ name, network.ruleName? startRule = some name ∧ rooted startRule name = assembly := by
  rw [start, OpenBranch.enter]
  cases network.ruleName? startRule <;> simp [Except.map, rooted]

/-! ## Growth inside the innermost open rule -/

/-- Add nodes, add ids to the children of the innermost open rule, and move the cursor. -/
def grow (new : Array Node) (ids : Array Nat) (position : Nat) : Assembly → Assembly
  | ⟨_, nodes, ⟨rule, name, start, children⟩, []⟩ =>
    ⟨position, nodes ++ new, ⟨rule, name, start, children ++ ids⟩, []⟩
  | ⟨_, nodes, root, ⟨rule, name, start, children⟩ :: outer⟩ =>
    ⟨position, nodes ++ new, root, ⟨rule, name, start, children ++ ids⟩ :: outer⟩

/-- The cursor is where the assembly has grown to. -/
@[simp] theorem cursor_grow (new : Array Node) (ids : Array Nat) (position : Nat)
    (assembly : Assembly) : (assembly.grow new ids position).cursor = position := by
  obtain ⟨cursor, nodes, root, openBranches⟩ := assembly
  cases openBranches <;> rfl

/-- New nodes come behind those that there are. -/
@[simp] theorem nodes_grow (new : Array Node) (ids : Array Nat) (position : Nat)
    (assembly : Assembly) : (assembly.grow new ids position).nodes = assembly.nodes ++ new := by
  obtain ⟨cursor, nodes, root, openBranches⟩ := assembly
  cases openBranches <;> rfl

/-- Without nodes and without a move there is no growth. -/
@[simp] theorem grow_nothing (assembly : Assembly) :
    assembly.grow #[] #[] assembly.cursor = assembly := by
  obtain ⟨cursor, nodes, root, openBranches⟩ := assembly
  cases openBranches <;> simp [grow]

/-- Growths add up. -/
theorem grow_grow (new more : Array Node) (ids others : Array Nat) (middle position : Nat)
    (assembly : Assembly) :
    (assembly.grow new ids middle).grow more others position =
      assembly.grow (new ++ more) (ids ++ others) position := by
  obtain ⟨cursor, nodes, root, openBranches⟩ := assembly
  cases openBranches <;> simp [grow]

/-- Consuming a token is a growth by its leaf. -/
theorem consumed_eq_grow (token : Token) (assembly : Assembly) :
    assembly.consumed token = assembly.grow #[.leaf ⟨assembly.cursor, token⟩]
      #[assembly.nodes.size] (assembly.cursor + 1) := by
  obtain ⟨cursor, nodes, root, openBranches⟩ := assembly
  cases openBranches <;> simp [grow, consumed, attach, OpenBranch.addChild]

/-- **A rule gone through is a growth** by what grew inside and the rule itself. -/
theorem exitInnermost_grow_opened (new : Array Node) (ids : Array Nat) (position rule : Nat)
    (name : String) (assembly : Assembly) :
    ((assembly.opened rule name).grow new ids position).exitInnermost =
      assembly.grow (new.push (.branch ⟨rule, name, ⟨assembly.cursor, position⟩, ids⟩))
        #[assembly.nodes.size + new.size] position := by
  obtain ⟨cursor, nodes, root, openBranches⟩ := assembly
  cases openBranches <;>
    simp [grow, opened, exitInnermost, attach, OpenBranch.addChild, OpenBranch.close]

/-- The innermost open rule after a rule is entered and grown inside. -/
theorem openBranches_grow_opened (new : Array Node) (ids : Array Nat) (position rule : Nat)
    (name : String) (assembly : Assembly) :
    ((assembly.opened rule name).grow new ids position).openBranches =
      ⟨rule, name, assembly.cursor, ids⟩ :: assembly.openBranches := by
  simp [grow, opened]

/-- A root that is grown and finished has grown into the tree. -/
theorem finish_grow_rooted (new : Array Node) (ids : Array Nat) (position rule : Nat)
    (name : String) :
    ((rooted rule name).grow new ids position).finish =
      ⟨⟨rule, name, ⟨0, position⟩, ids⟩, new⟩ := by
  simp [finish, rooted, grow, exitMany, OpenBranch.close]

/-- A token is consumed behind events that were taken as a growth. -/
theorem pushAll_append_consume {events : List Event} {assembly : Assembly} {new : Array Node}
    {ids : Array Nat} {position : Nat} {token : Token}
    (taken : assembly.pushAll network tokens events = .ok (assembly.grow new ids position))
    (read : tokens[position]? = some token) :
    assembly.pushAll network tokens (events ++ [.consume position]) =
      .ok (assembly.grow (new.push (.leaf ⟨position, token⟩))
        (ids.push (assembly.nodes ++ new).size) (position + 1)) := by
  refine pushAll_append_eq_ok_iff.2 ⟨_, taken, pushAll_cons_eq_ok_iff.2 ?_⟩
  -- the growth leaves the cursor at the token
  have accepted : Accepts network tokens (.consume (assembly.grow new ids position).cursor)
      (assembly.grow new ids position) ((assembly.grow new ids position).consumed token) :=
    .consume (by rwa [cursor_grow])
  rw [cursor_grow] at accepted
  refine ⟨_, accepted, ?_⟩
  rw [pushAll_nil, consumed_eq_grow, grow_grow, cursor_grow, nodes_grow, Array.append_singleton,
    Array.append_singleton]

/-- A rule is gone through behind events that were taken as a growth. -/
theorem pushAll_append_call {events inside : List Event} {assembly : Assembly}
    {new more : Array Node} {ids others : Array Nat} {middle position rule : Nat} {name : String}
    (taken : assembly.pushAll network tokens events = .ok (assembly.grow new ids middle))
    (known : network.ruleName? rule = some name)
    (through : ((assembly.grow new ids middle).opened rule name).pushAll network tokens inside =
      .ok (((assembly.grow new ids middle).opened rule name).grow more others position)) :
    assembly.pushAll network tokens (events ++ .enter rule :: (inside ++ [.exit rule])) =
      .ok (assembly.grow
        ((new ++ more).push (.branch ⟨rule, name, ⟨middle, position⟩, others⟩))
        (ids.push (assembly.nodes ++ (new ++ more)).size) position) := by
  refine pushAll_append_eq_ok_iff.2 ⟨_, taken, ?_⟩
  refine pushAll_cons_eq_ok_iff.2 ⟨_, .enter known, ?_⟩
  refine pushAll_append_eq_ok_iff.2 ⟨_, through, ?_⟩
  -- once grown inside, the rule entered is the innermost, so that it can be exited
  have innermost := openBranches_grow_opened more others position rule name
    (assembly.grow new ids middle)
  refine pushAll_cons_eq_ok_iff.2 ⟨_, .exit innermost, ?_⟩
  rw [pushAll_nil, exitInnermost_grow_opened, grow_grow, cursor_grow, nodes_grow]
  simp [Nat.add_assoc]

end Assembly

/-- A tree is assembled if its root exists and the events are taken. -/
theorem ParseTree.assemble_eq_ok_iff {network : Network} {tokens : Array Token} {startRule : Nat}
    {events : List Event} {tree : ParseTree} :
    assemble network tokens startRule events = .ok tree ↔
      ∃ name assembly, network.ruleName? startRule = some name ∧
        (Assembly.rooted startRule name).pushAll network tokens events = .ok assembly ∧
        assembly.finish = tree := by
  rw [assemble]
  cases started : Assembly.start network startRule with
  | error fault =>
    simp only [bind, Except.bind, reduceCtorEq, false_iff]
    rintro ⟨name, assembly, known, -⟩
    rw [Assembly.start_eq_ok_iff.2 ⟨name, known, rfl⟩] at started
    cases started
  | ok root =>
    obtain ⟨name, known, rfl⟩ := Assembly.start_eq_ok_iff.1 started
    cases taken : (Assembly.rooted startRule name).pushAll network tokens events with
    | error fault => simp [bind, Except.bind, known, taken]
    | ok assembly => simp [bind, Except.bind, pure, Except.pure, known, taken]

end TransitionNetworks
