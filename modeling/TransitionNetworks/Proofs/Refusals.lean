import TransitionNetworks.Proofs.Tiling
import Mathlib.Data.List.Nodup

/-! # Going on behind refused events

An assembly may be pushed events that do not fit, and go on. A refused event changes nothing, unless
a rule is exited in place of another one, which takes the innermost open rule away with everything
below it (`Assembly.Pushes`, `Assembly.pushes_push`). So gaps can appear, and leaves get lost
(`Assembly.lost`), but what is left stays sound (`Assembly.Sound`): nodes are in order and inside
their branches, no id is referred to twice, and the leaves are those of the tokens consumed without
the lost ones. `Assembly.pushEach_sound` says so of the tree in the end. -/

namespace TransitionNetworks

/-- Whether a node is attached at an event: a rule is exited or a token consumed. -/
def Event.attaches : Event → Bool
  | enter _ => false
  | exit _ => true
  | consume _ => true

/-- The events that were accepted, given what became of each. -/
def acceptedEvents (events : List Event) (faults : List (Option TreeFault)) : List Event :=
  ((events.zip faults).filter fun pair => pair.2.isNone).map Prod.fst

namespace Assembly

/-- Take the innermost open rule away and attach it nowhere. -/
def dropInnermost (assembly : Assembly) : Assembly :=
  { assembly with openBranches := assembly.openBranches.tail }

/-- **What becomes of an event.** -/
inductive Pushes (network : Network) (tokens : Array Token) :
    Event → Assembly → Option TreeFault → Assembly → Prop
  /-- It is accepted. -/
  | accepted {event : Event} {assembly later : Assembly}
      (accepted : Accepts network tokens event assembly later) :
      Pushes network tokens event assembly none later
  /-- It is refused and changes nothing. -/
  | refused {event : Event} {assembly : Assembly} {fault : TreeFault}
      (other : ∀ expected found, fault ≠ .mismatchedExit expected found) :
      Pushes network tokens event assembly (some fault) assembly
  /-- A rule is exited in place of another one, which is taken away. -/
  | mismatched {rule : Nat} {assembly : Assembly} {innermost : OpenBranch}
      {outer : List OpenBranch} (isOpen : assembly.openBranches = innermost :: outer)
      (different : innermost.rule ≠ rule) :
      Pushes network tokens (.exit rule) assembly (some (.mismatchedExit innermost.rule rule))
        assembly.dropInnermost

variable {network : Network} {tokens : Array Token}

/-- **Every event is accepted, refused without a change, or mismatched.** -/
theorem pushes_push (network : Network) (tokens : Array Token) (event : Event)
    (assembly : Assembly) :
    Pushes network tokens event assembly (assembly.push network tokens event).1
      (assembly.push network tokens event).2 := by
  have taken : ∀ later, Accepts network tokens event assembly later →
      Pushes network tokens event assembly (assembly.push network tokens event).1
        (assembly.push network tokens event).2 := by
    intro later accepted
    rw [push_eq_none_iff.2 accepted]
    exact .accepted accepted
  cases event with
  | enter rule =>
    cases known : network.ruleName? rule with
    | some name => exact taken _ (.enter known)
    | none =>
      have refused : assembly.push network tokens (.enter rule) =
          (some (.unknownRule rule), assembly) := by
        simp [push, Assembly.enter, OpenBranch.enter, known]
      rw [refused]
      exact .refused (by simp)
  | exit rule =>
    cases isOpen : assembly.openBranches with
    | nil =>
      have refused : assembly.push network tokens (.exit rule) =
          (some (.unbalancedExit rule), assembly) := by
        simp [push, Assembly.exit, isOpen]
      rw [refused]
      exact .refused (by simp)
    | cons innermost outer =>
      by_cases same : innermost.rule = rule
      · subst same
        exact taken _ (.exit isOpen)
      · have refused : assembly.push network tokens (.exit rule) =
            (some (.mismatchedExit innermost.rule rule), assembly.dropInnermost) := by
          simp [push, Assembly.exit, isOpen, same, dropInnermost]
        rw [refused]
        exact .mismatched isOpen same
  | consume index =>
    by_cases next : index = assembly.cursor
    · subst next
      cases read : tokens[assembly.cursor]? with
      | some token => exact taken _ (.consume read)
      | none =>
        have refused : assembly.push network tokens (.consume assembly.cursor) =
            (some (.tokenOutOfRange assembly.cursor), assembly) := by
          simp [push, Assembly.consume, read]
        rw [refused]
        exact .refused (by simp)
    · have refused : assembly.push network tokens (.consume index) =
          (some (.cursorMismatch assembly.cursor index), assembly) := by
        simp [push, Assembly.consume, next]
      rw [refused]
      exact .refused (by simp)

/-- What becomes of a list of events is what becomes of the first and of the others behind it. -/
theorem pushEach_cons (event : Event) (rest : List Event) (assembly : Assembly) :
    assembly.pushEach network tokens (event :: rest) =
      ((assembly.push network tokens event).1 ::
          ((assembly.push network tokens event).2.pushEach network tokens rest).1,
        ((assembly.push network tokens event).2.pushEach network tokens rest).2) := rfl

/-- The leaves that an event takes away: those below a rule in place of which another is exited. -/
def lostBy (network : Network) (tokens : Array Token) (event : Event) (assembly : Assembly) :
    List Leaf :=
  match (assembly.push network tokens event).1, assembly.openBranches with
  | some (.mismatchedExit _ _), innermost :: _ =>
    Node.leavesBelow assembly.nodes innermost.children.toList
  | _, _ => []

/-- The leaves that events take away, one after the other. -/
def lost (network : Network) (tokens : Array Token) : List Event → Assembly → List Leaf
  | [], _ => []
  | event :: rest, assembly =>
    assembly.lostBy network tokens event ++
      lost network tokens rest (assembly.push network tokens event).2

/-- **The course of an assembly** that is pushed events, with those accepted and the leaves lost. -/
inductive Course (network : Network) (tokens : Array Token) :
    Assembly → List Event → List Leaf → Assembly → Prop
  /-- Without events nothing happens. -/
  | nil (assembly : Assembly) : Course network tokens assembly [] [] assembly
  /-- An event is accepted. -/
  | accepted {event : Event} {assembly next last : Assembly} {taken : List Event}
      {gone : List Leaf} (accepted : Accepts network tokens event assembly next)
      (rest : Course network tokens next taken gone last) :
      Course network tokens assembly (event :: taken) gone last
  /-- A rule is taken away with the leaves below it. -/
  | dropped {assembly last : Assembly} {innermost : OpenBranch} {outer : List OpenBranch}
      {taken : List Event} {gone : List Leaf}
      (isOpen : assembly.openBranches = innermost :: outer)
      (rest : Course network tokens assembly.dropInnermost taken gone last) :
      Course network tokens assembly taken
        (Node.leavesBelow assembly.nodes innermost.children.toList ++ gone) last

/-- **Pushing events is a course.** -/
theorem course_pushEach (network : Network) (tokens : Array Token) (events : List Event)
    (assembly : Assembly) :
    Course network tokens assembly
      (acceptedEvents events (assembly.pushEach network tokens events).1)
      (assembly.lost network tokens events) (assembly.pushEach network tokens events).2 := by
  induction events generalizing assembly with
  | nil => exact .nil assembly
  | cons event rest ih =>
    have later := ih (assembly.push network tokens event).2
    have became := pushes_push network tokens event assembly
    rw [pushEach_cons, lost, lostBy]
    generalize (assembly.push network tokens event).1 = fault at became
    generalize (assembly.push network tokens event).2 = next at became later
    cases became with
    | accepted accepted => exact .accepted accepted later
    | refused other =>
      rename_i fault
      cases fault with
      | mismatchedExit expected found => exact absurd rfl (other expected found)
      | cursorMismatch | tokenOutOfRange | unbalancedExit | unknownRule => exact later
    | mismatched isOpen =>
      rw [isOpen]
      exact .dropped isOpen later

/-! ## What is accepted -/

/-- An event accepted attaches a node if it exits a rule or consumes a token. -/
theorem Accepts.size_eq {event : Event} {assembly later : Assembly}
    (accepted : Accepts network tokens event assembly later) :
    later.nodes.size = assembly.nodes.size + [event].countP Event.attaches := by
  cases accepted with
  | enter known => rfl
  | exit isOpen => exact (addsNode_exitInnermost isOpen).size
  | consume read => exact (addsNode_consumed _ _).size

/-- An event accepted consumes the token at the cursor, if any. -/
theorem Accepts.consumedIndexes_eq {event : Event} {assembly later : Assembly}
    (accepted : Accepts network tokens event assembly later) :
    List.range assembly.cursor ++ consumedIndexes [event] = List.range later.cursor := by
  cases accepted with
  | enter known => exact List.append_nil _
  | exit isOpen =>
    rw [cursor_exitInnermost]
    exact List.append_nil _
  | consume read => exact List.range_succ.symm

/-- **The events accepted attach the nodes,** and consume the tokens up to the cursor. -/
theorem Course.accepted_eq {assembly last : Assembly} {taken : List Event} {gone : List Leaf}
    (course : Course network tokens assembly taken gone last) :
    last.nodes.size = assembly.nodes.size + taken.countP Event.attaches ∧
      List.range assembly.cursor ++ consumedIndexes taken = List.range last.cursor := by
  induction course with
  | nil => exact ⟨rfl, List.append_nil _⟩
  | @accepted event assembly next last taken gone accepted _ ih =>
    obtain ⟨size, indexes⟩ := ih
    have split : consumedIndexes (event :: taken) =
        consumedIndexes [event] ++ consumedIndexes taken :=
      List.filterMap_append (l := [event])
    constructor
    · rw [size, accepted.size_eq, Nat.add_assoc, ← List.countP_append, List.singleton_append]
    · rw [split, ← List.append_assoc, accepted.consumedIndexes_eq, indexes]
  | dropped _ _ ih => exact ih

/-! ## What is left -/

/-- **Single references.** Nodes and open rules refer to ids in use, and to none of them twice. -/
structure Single (assembly : Assembly) : Prop where
  /-- No id is referred to twice. -/
  nodup : assembly.references.Nodup
  /-- The ids referred to are in use. -/
  inUse : ∀ id ∈ assembly.references, id < assembly.nodes.size

/-- With one more node, references are single still. -/
theorem AddsNode.single {assembly later : Assembly} (adds : assembly.AddsNode later)
    (single : assembly.Single) : later.Single := by
  refine ⟨?_, ?_⟩
  · refine adds.references.nodup_iff.2 (List.nodup_append.2 ?_)
    refine ⟨single.nodup, List.nodup_singleton _, ?_⟩
    intro id old other new same
    -- the next id is not in use yet
    have := single.inUse id old
    rw [List.mem_singleton] at new
    omega
  · intro id member
    rw [adds.size]
    rcases List.mem_append.1 (adds.references.mem_iff.1 member) with old | new
    · exact Nat.lt_succ_of_lt (single.inUse id old)
    · rw [List.mem_singleton.1 new]
      exact Nat.lt_succ_self _

/-- References stay single when the innermost rule is left. -/
theorem Single.exitInnermost {assembly : Assembly} (single : assembly.Single) :
    assembly.exitInnermost.Single := by
  rcases exitInnermost_eq_or_addsNode assembly with same | adds
  · rwa [same]
  · exact adds.single single

/-- Accepted events keep references single. -/
theorem Single.accepts {event : Event} {assembly later : Assembly} (single : assembly.Single)
    (accepted : Accepts network tokens event assembly later) : later.Single := by
  rcases accepted.references_eq_or_addsNode with ⟨size, same⟩ | adds
  · refine ⟨same ▸ single.nodup, ?_⟩
    rw [size, same]
    exact single.inUse
  · exact adds.single single

/-- References stay single without the innermost open rule. -/
theorem Single.outer {cursor : Nat} {nodes : Array Node} {root innermost : OpenBranch}
    {outer : List OpenBranch}
    (single : (Assembly.mk cursor nodes root (innermost :: outer)).Single) :
    (Assembly.mk cursor nodes root outer).Single := by
  have fewer : (Assembly.mk cursor nodes root outer).references.Sublist
      (Assembly.mk cursor nodes root (innermost :: outer)).references := by
    rw [references, references, exposed_cons, ← List.append_assoc]
    exact List.sublist_append_left _ _
  exact ⟨single.nodup.sublist fewer, fun id member => single.inUse id (fewer.subset member)⟩

/-- No two leaves in front of a position are the same. -/
theorem nodup_leavesUpTo (tokens : Array Token) (position : Nat) :
    (leavesUpTo tokens position).Nodup := by
  refine List.Nodup.of_map Leaf.index ?_
  rw [leavesUpTo, List.map_map]
  have indexes := List.zipIdx_map_snd 0 (tokens.toList.take position)
  exact indexes ▸ List.nodup_range'

/-- Leaves that are not among others stay when the others are left out. -/
theorem filter_notMem_eq_self {leaves others : List Leaf} (apart : ∀ leaf ∈ leaves, leaf ∉ others) :
    (leaves.filter fun leaf => leaf ∉ others) = leaves :=
  List.filter_eq_self.2 fun leaf member => decide_eq_true (apart leaf member)

/-- **Sound assemblies,** with some leaves lost. -/
structure Sound (tokens : Array Token) (gone : List Leaf) (assembly : Assembly) : Prop where
  /-- Nodes are in order and inside their branches. -/
  arranged : assembly.Arranged (· ≤ ·)
  /-- Ids are smaller below, and increase from left to right. -/
  numbered : assembly.Numbered
  /-- No id is referred to twice. -/
  single : assembly.Single
  /-- The cursor is inside the input. -/
  inside : assembly.cursor ≤ tokens.size
  /-- The leaves are those of the tokens consumed, without the lost ones. -/
  leaves : assembly.leaves =
    (leavesUpTo tokens assembly.cursor).filter fun leaf => leaf ∉ gone
  /-- The lost leaves are those of tokens consumed. -/
  lost : ∀ leaf ∈ gone, leaf ∈ leavesUpTo tokens assembly.cursor

/-- Accepted events keep an assembly sound. -/
theorem Sound.accepts {event : Event} {assembly later : Assembly} {gone : List Leaf}
    (sound : assembly.Sound tokens gone) (accepted : Accepts network tokens event assembly later) :
    later.Sound tokens gone := by
  obtain ⟨new, grown, behind⟩ := accepted.exists_leaves sound.numbered.inUse
  refine ⟨sound.arranged.accepts spacing_le accepted, sound.numbered.accepts accepted,
    sound.single.accepts accepted, accepted.cursor_le sound.inside, ?_, ?_⟩
  · rw [grown, behind, List.filter_append, ← sound.leaves]
    -- a leaf that is new is none of those lost before
    have apart := List.nodup_append.1 (behind ▸ nodup_leavesUpTo tokens later.cursor)
    rw [filter_notMem_eq_self fun leaf isNew isLost =>
      apart.2.2 leaf (sound.lost leaf isLost) leaf isNew rfl]
  · intro leaf member
    rw [behind]
    exact List.mem_append_left _ (sound.lost leaf member)

/-- Without its last part a list without repetitions is its first part. -/
theorem filter_notMem_append {front back : List Leaf} (nodup : (front ++ back).Nodup) :
    ((front ++ back).filter fun leaf => leaf ∉ back) = front := by
  have apart := (List.nodup_append.1 nodup).2.2
  have left : (back.filter fun leaf => leaf ∉ back) = [] := by
    rw [List.filter_eq_nil_iff]
    exact fun leaf inBack => by simpa using inBack
  rw [List.filter_append, left, List.append_nil]
  exact filter_notMem_eq_self fun leaf inFront inBack => apart leaf inFront leaf inBack rfl

/-- **Taking a rule away keeps an assembly sound,** with the leaves below the rule lost. -/
theorem Sound.dropInnermost {assembly : Assembly} {innermost : OpenBranch}
    {outer : List OpenBranch} {gone : List Leaf} (sound : assembly.Sound tokens gone)
    (isOpen : assembly.openBranches = innermost :: outer) :
    assembly.dropInnermost.Sound tokens
      (gone ++ Node.leavesBelow assembly.nodes innermost.children.toList) := by
  obtain ⟨cursor, nodes, root, openBranches⟩ := assembly
  cases isOpen
  have split := sound.leaves
  rw [Assembly.leaves, exposed_cons, Node.leavesBelow_append] at split
  generalize below : Node.leavesBelow nodes innermost.children.toList = dropped at split ⊢
  refine ⟨sound.arranged.outer, sound.numbered.outer, sound.single.outer, sound.inside, ?_, ?_⟩
  · have both : ((leavesUpTo tokens cursor).filter fun leaf => leaf ∉ gone ++ dropped) =
        ((leavesUpTo tokens cursor).filter fun leaf => leaf ∉ gone).filter
          fun leaf => leaf ∉ dropped := by
      rw [List.filter_filter]
      exact List.filter_congr fun leaf _ => by simp [Bool.and_comm]
    have nodup := split ▸ (nodup_leavesUpTo tokens cursor).filter _
    exact ((congrArg _ split.symm).trans (filter_notMem_append nodup)).symm.trans both.symm
  · intro leaf member
    rcases List.mem_append.1 member with before | now
    · exact sound.lost leaf before
    · exact (List.mem_filter.1 (split ▸ List.mem_append_right _ now)).1

/-- **The course of an assembly keeps it sound,** with the leaves lost on it. -/
theorem Course.sound {assembly last : Assembly} {taken : List Event} {gone before : List Leaf}
    (course : Course network tokens assembly taken gone last)
    (sound : assembly.Sound tokens before) : last.Sound tokens (before ++ gone) := by
  induction course generalizing before with
  | nil =>
    rw [List.append_nil]
    exact sound
  | accepted accepted _ ih => exact ih (sound.accepts accepted)
  | dropped isOpen _ ih =>
    rw [← List.append_assoc]
    exact ih (sound.dropInnermost isOpen)

/-- A root without children is sound, and no leaf is lost. -/
theorem sound_rooted (tokens : Array Token) (rule : Nat) (name : String) :
    (rooted rule name).Sound tokens [] :=
  ⟨arranged_rooted spacing_le rule name, numbered_rooted rule name,
    ⟨List.nodup_nil, fun _ member => absurd member List.not_mem_nil⟩, Nat.zero_le _, rfl,
    fun _ member => absurd member List.not_mem_nil⟩

/-- The leaves of a sound assembly have the indexes consumed, without those of the lost ones. -/
theorem Sound.map_index_leaves {assembly : Assembly} {gone : List Leaf}
    (sound : assembly.Sound tokens gone) :
    assembly.leaves.map Leaf.index =
      (List.range assembly.cursor).filter fun index => index ∉ gone.map Leaf.index := by
  have indexes := map_index_leavesUpTo sound.inside
  rw [sound.leaves, ← indexes, List.filter_map]
  congr 1
  apply List.filter_congr
  intro leaf consumed
  have same : leaf ∈ gone ↔ leaf.index ∈ gone.map Leaf.index := by
    constructor
    · exact List.mem_map_of_mem
    · -- no two leaves of tokens consumed have the same index
      intro member
      obtain ⟨other, isLost, equal⟩ := List.mem_map.1 member
      have nodup : ((leavesUpTo tokens assembly.cursor).map Leaf.index).Nodup :=
        indexes ▸ List.nodup_range
      rwa [← List.inj_on_of_nodup_map nodup (sound.lost other isLost) consumed equal]
  simp [same]

/-- **The tree of a sound assembly.** -/
theorem Sound.finish {assembly : Assembly} {gone : List Leaf}
    (sound : assembly.Sound tokens gone) :
    (∀ branch, assembly.finish.HasBranch branch → Spaced assembly.finish.nodes branch.span.start
      branch.children.toList branch.span.stop) ∧
    assembly.finish.references.Nodup ∧
    (∀ id ∈ assembly.finish.references, id < assembly.finish.size) ∧
    assembly.finish.leaves = assembly.leaves := by
  obtain ⟨root, below⟩ := sound.arranged.inRow_finish spacing_le
  have last := exitMany_invariant Single (fun _ single => single.exitInnermost)
    assembly.openBranches.length sound.single
  rw [references_finish]
  refine ⟨?_, last.nodup, last.inUse, ParseTree.leaves_finish sound.numbered.inUse⟩
  rintro branch (rfl | member)
  · exact root
  · exact below branch member

/-- What becomes of an event that is refused. -/
theorem Pushes.refused_cases {event : Event} {assembly later : Assembly} {fault : TreeFault}
    (pushes : Pushes network tokens event assembly (some fault) later) :
    ((∀ expected found, fault ≠ .mismatchedExit expected found) ∧ later = assembly) ∨
      ∃ innermost outer found, fault = .mismatchedExit innermost.rule found ∧
        assembly.openBranches = innermost :: outer ∧ innermost.rule ≠ found ∧
        event = .exit found ∧ later = { assembly with openBranches := outer } := by
  cases pushes with
  | refused other => exact .inl ⟨other, rfl⟩
  | @mismatched found assembly innermost outer isOpen different =>
    refine .inr ⟨innermost, outer, found, rfl, isOpen, different, rfl, ?_⟩
    rw [dropInnermost, isOpen, List.tail_cons]

/-- **An assembly stays sound behind refused events.** An event refused changes nothing, unless a
rule is exited in place of the innermost open one, which is then taken away with what is below it.
However many events are refused, a tree comes out in the end with a node for every rule exited,
every token consumed and every rule still open. The nodes below a branch are in order, inside the
branch and apart from each other, their ids are smaller than that of the branch, and no id is
referred to twice. A traversal ends with the leaves, which are those of the tokens consumed but not
lost below rules taken away. -/
theorem pushEach_sound (network : Network) (tokens : Array Token) :
    (∀ (event : Event) (assembly : Assembly) (fault : TreeFault) (later : Assembly),
      assembly.push network tokens event = (some fault, later) →
      ((∀ expected found, fault ≠ .mismatchedExit expected found) ∧ later = assembly) ∨
        ∃ innermost outer found, fault = .mismatchedExit innermost.rule found ∧
          assembly.openBranches = innermost :: outer ∧ innermost.rule ≠ found ∧
          event = .exit found ∧ later = { assembly with openBranches := outer }) ∧
    ∀ (startRule : Nat) (first : Assembly) (events : List Event)
      (faults : List (Option TreeFault)) (last : Assembly),
      start network startRule = .ok first →
      first.pushEach network tokens events = (faults, last) →
      let accepted := acceptedEvents events faults
      let tree := last.finish
      tree.size = accepted.countP Event.attaches + last.openBranches.length ∧
        (∀ branch, tree.HasBranch branch →
          Spaced tree.nodes branch.span.start branch.children.toList branch.span.stop) ∧
        Node.Descending tree.nodes ∧ tree.references.Nodup ∧
        (∀ id ∈ tree.references, id < tree.size) ∧
        (∃ count, tree.traversal.turns tree.nodes count = ⟨tree.leaves.toArray, []⟩) ∧
        (tree.leaves.map Leaf.index).Pairwise (· < ·) ∧
        (∀ leaf ∈ tree.leaves, tokens[leaf.index]? = some leaf.token) ∧
        tree.leaves.map Leaf.index = (consumedIndexes accepted).filter fun index =>
          index ∉ (first.lost network tokens events).map Leaf.index := by
  constructor
  · intro event assembly fault later pushed
    have pushes := pushes_push network tokens event assembly
    rw [pushed] at pushes
    exact pushes.refused_cases
  · intro startRule first events faults last started pushed accepted tree
    obtain ⟨name, -, rfl⟩ := start_eq_ok_iff.1 started
    have course := course_pushEach network tokens events (rooted startRule name)
    rw [pushed] at course
    generalize (rooted startRule name).lost network tokens events = gone at course ⊢
    have sound : last.Sound tokens gone := course.sound (sound_rooted tokens startRule name)
    obtain ⟨nodes, indexes⟩ := course.accepted_eq
    obtain ⟨spaced, nodup, inUse, leaves⟩ := sound.finish
    obtain ⟨descending, below, -⟩ := sound.numbered.finish
    have left : tree.leaves.map Leaf.index =
        (List.range last.cursor).filter fun index => index ∉ gone.map Leaf.index := by
      rw [leaves]
      exact sound.map_index_leaves
    refine ⟨?_, spaced, descending, nodup, inUse, ⟨_, ParseTree.turns_traversal descending below⟩,
      ?_, ?_, ?_⟩
    · rw [size_finish, begun, nodes]
      exact congrArg (· + _) (Nat.zero_add _)
    · rw [left]
      exact List.pairwise_lt_range.filter _
    · rw [leaves, sound.leaves]
      exact fun leaf member => getElem?_of_mem_leavesUpTo (List.mem_filter.1 member).1
    · rw [left, ← indexes]
      rfl

/-- Of two sevens in the sample the first is lost, when another rule is exited in place of the one
that it is below. A token consumed twice changes nothing, and a rule left open is exited in the
end. -/
theorem pushEach_sound_doubling :
    let events := [.enter 0, .consume 0, .consume 0, .exit 1, .consume 1, .enter 0]
    let last := ((rooted 0 "S").pushEach doubling #[7, 7] events).2
    start doubling 0 = .ok (rooted 0 "S") ∧
      ((rooted 0 "S").consumed 7).push doubling #[7, 7] (.consume 0) =
        (some (.cursorMismatch 1 0), (rooted 0 "S").consumed 7) ∧
      last.finish.size = 3 ∧
      Spaced last.finish.nodes 0 last.finish.root.children.toList last.finish.root.span.stop ∧
      last.finish.references.Nodup ∧ last.finish.leaves.map Leaf.index = [1] := by
  intro events last
  obtain ⟨atOnce, behind⟩ := pushEach_sound doubling #[7, 7]
  have refused : ((rooted 0 "S").consumed 7).push doubling #[7, 7] (.consume 0) =
      (some (.cursorMismatch 1 0), (rooted 0 "S").consumed 7) := by
    decide +kernel
  obtain ⟨size, spaced, -, nodup, -, -, -, -, leaves⟩ :=
    behind 0 (rooted 0 "S") events _ last rfl rfl
  rcases atOnce _ _ _ _ refused with ⟨-, -⟩ | ⟨_, _, _, mismatched, -⟩
  · refine ⟨rfl, refused, ?_, spaced _ (.inl rfl), nodup, ?_⟩
    · rw [size]
      decide +kernel
    · rw [leaves]
      decide +kernel
  · cases mismatched

end Assembly

end TransitionNetworks
