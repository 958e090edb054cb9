import TransitionNetworks.Network.Listing
import TransitionNetworks.Proofs.Language
import TransitionNetworks.Proofs.Text.Codes
import TransitionNetworks.Proofs.Text.Lines
import TransitionNetworks.Proofs.Tree.Rows
import TransitionNetworks.Proofs.Tree.Typesetting

/-! # Text on pages of any width

If no name of a rule has a space or a new line in it (`Blankless`), the documents of trees and
networks flow, so that the width of the page changes the line breaks of a text and nothing else.
The text of a tree on one line is told by recursion on its nodes (`ParseTree.lineOf`): a leaf is
shown by its place and its token, and a branch by its head, with the lines of its children between
braces if it has any. The names in a tree are those of rules (`Assembly.Named`). -/

namespace TransitionNetworks

/-- A name without spaces and new lines. -/
def Blankless (name : String) : Prop := ' ' ∉ name.toList ∧ '\n' ∉ name.toList

/-- A text on one line. -/
def Unbroken (text : String) : Prop := '\n' ∉ text.toList

/-- Two texts in a row are on one line if both are. -/
@[simp] theorem unbroken_append {first second : String} :
    Unbroken (first ++ second) ↔ Unbroken first ∧ Unbroken second := by
  simp [Unbroken]

/-- A number is on one line. -/
@[simp] theorem unbroken_repr (number : Nat) : Unbroken (Nat.repr number) := fun member =>
  absurd (isDigit_of_mem_repr member) (by decide)

/-- A token is on one line. -/
@[simp] theorem Token.unbroken_text (token : Token) : Unbroken token.text := by
  intro member
  rcases Token.mem_text member with name | sign | digit
  · exact absurd name (by decide)
  · exact absurd sign (by decide)
  · exact absurd digit (by decide)

/-- A set of tokens is on one line. -/
@[simp] theorem TokenSet.unbroken_text (set : TokenSet) : Unbroken set.text := by
  have inner : Unbroken (",".intercalate (set.elements.map Token.text)) := by
    rw [Unbroken, String.toList_intercalate, List.map_map]
    generalize set.elements = tokens
    induction tokens with
    | nil => simp
    | cons token rest ih =>
      have first := token.unbroken_text
      cases rest with
      | nil => simpa [Unbroken] using first
      | cons next rest => simpa [Unbroken] using ⟨first, ih⟩
  have openBrace : Unbroken "\x7b" := by simp [Unbroken]
  have closeBrace : Unbroken "\x7d" := by simp [Unbroken]
  rw [TokenSet.text]
  exact unbroken_append.2 ⟨unbroken_append.2 ⟨openBrace, inner⟩, closeBrace⟩

/-- A matcher is on one line. -/
@[simp] theorem Matcher.unbroken_text (matcher : Matcher) : Unbroken matcher.text := by
  cases matcher with
  | oneOf set => exact set.unbroken_text
  | noneOf set => exact unbroken_append.2 ⟨by simp [Unbroken], set.unbroken_text⟩
  | any => simp [Unbroken, Matcher.text]

/-- The name of a sort of epsilon step is on one line. -/
@[simp] theorem EpsilonKind.unbroken_text (kind : EpsilonKind) : Unbroken kind.text := by
  cases kind <;> simp [Unbroken, EpsilonKind.text]

/-- A state is on one line. -/
@[simp] theorem unbroken_stateText (state : Nat) : Unbroken (stateText state) := by
  rw [stateText, unbroken_append]
  exact ⟨by simp [Unbroken], unbroken_repr state⟩

/-- A text on one line is a block if it begins with a text that does, with no space. -/
theorem block_append {first second : String} (oneLine : Unbroken (first ++ second))
    (begins : ∃ letter ∈ first.toList.head?, letter ≠ ' ') :
    (Document.text (first ++ second)).Block := by
  obtain ⟨letter, head, visible⟩ := begins
  refine Document.block_text oneLine ⟨letter, ?_, visible⟩
  have head : first.toList.head? = some letter := head
  rw [String.toList_append, List.head?_append, head]
  rfl

/-! ## Trees -/

namespace Outline

/-- The line of a branch: its head, and the lines of its children between braces, if there are any.
-/
def branchLine (branch : Branch) : List String → String
  | [] => branchHeader branch
  | first :: others =>
    branchHeader branch ++ " \x7b " ++ " ".intercalate (first :: others) ++ " \x7d"

mutual

/-- **The text of an outline on one line.** -/
def oneLine : Outline → String
  | leaf tip => leafText tip
  | branch top children => branchLine top (oneLines children)

/-- The texts of consecutive outlines, each on one line. -/
def oneLines : List Outline → List String
  | [] => []
  | outline :: outlines => outline.oneLine :: oneLines outlines

end

/-- The texts of consecutive outlines are those of each. -/
theorem oneLines_eq_map (outlines : List Outline) : oneLines outlines = outlines.map oneLine := by
  induction outlines with
  | nil => rfl
  | cons outline outlines ih => rw [oneLines, ih, List.map_cons]

/-- The entry of a branch on one line. -/
theorem oneLine_branchDocument (branch : Branch) (documents : List Document) :
    (branchDocument branch documents).oneLine =
      branchLine branch (documents.map Document.oneLine) := by
  cases documents with
  | nil => rfl
  | cons first others =>
    have inner := Document.oneLine_joined_line (first :: others)
    have opened : (" \x7b" : String) ++ " " = " \x7b " := rfl
    have closed : (" " : String) ++ "\x7d" = " \x7d" := rfl
    rw [List.map_cons] at inner
    simp only [branchDocument, Document.oneLine, Document.oneLine_append, inner, List.map_cons,
      branchLine, ← opened, ← closed, String.append_assoc]

mutual

/-- **The document of an outline has its text on one line.** -/
theorem oneLine_document : ∀ outline : Outline, outline.document.oneLine = outline.oneLine
  | leaf _ => rfl
  | branch top children => by
    rw [document, oneLine_branchDocument, oneLine_documents children, oneLine]

/-- So have the documents of outlines in a row. -/
theorem oneLine_documents : ∀ outlines : List Outline,
    (documents outlines).map Document.oneLine = oneLines outlines
  | [] => rfl
  | outline :: outlines => by
    rw [documents, List.map_cons, oneLine_document outline, oneLine_documents outlines, oneLines]

end

/-- The entry of a leaf is a block. -/
theorem block_leafText (leaf : Leaf) : (Document.text (leafText leaf)).Block := by
  have sign : Unbroken "#" := by simp [Unbroken]
  have colon : Unbroken ":" := by simp [Unbroken]
  have oneLine : Unbroken (leafText leaf) := by simp [leafText, sign, colon]
  rw [leafText, String.append_assoc, String.append_assoc] at oneLine ⊢
  exact block_append oneLine ⟨'#', rfl, by decide⟩

/-- The head of a branch whose name is blankless is a block. -/
theorem block_branchHeader {branch : Branch} (blankless : Blankless branch.name) :
    (Document.text (branchHeader branch)).Block := by
  have opened : Unbroken "[" := by simp [Unbroken]
  have dots : Unbroken ".." := by simp [Unbroken]
  have closed : Unbroken ")" := by simp [Unbroken]
  have name : Unbroken branch.name := blankless.2
  have oneLine : Unbroken (branchHeader branch) := by
    simp [branchHeader, name, opened, dots, closed]
  rw [branchHeader, String.append_assoc, String.append_assoc, String.append_assoc] at oneLine ⊢
  -- the head begins with the name or, if this is empty, with the bracket
  cases letters : branch.name.toList with
  | nil =>
    have empty : branch.name = "" := String.toList_eq_nil_iff.1 letters
    rw [empty, String.empty_append] at oneLine ⊢
    exact block_append oneLine ⟨'[', rfl, by decide⟩
  | cons letter rest =>
    refine block_append oneLine ⟨letter, ?_, ?_⟩
    · rw [String.toList_append, letters]
      rfl
    · rintro rfl
      exact blankless.1 (letters ▸ List.mem_cons_self)

/-- **The entry of a branch is a block,** if its name is blankless and the entries of its children
are blocks. -/
theorem block_branchDocument {branch : Branch} (blankless : Blankless branch.name)
    {documents : List Document} (blocks : ∀ document ∈ documents, document.Block) :
    (branchDocument branch documents).Block := by
  have head := block_branchHeader blankless
  cases documents with
  | nil => exact head
  | cons first others =>
    have inner := Document.block_joined blocks
    have brace : (Document.text "\x7d").Block :=
      Document.block_text (by simp) ⟨'\x7d', rfl, by decide⟩
    -- the head ends in no break, so the space in front of the brace stays
    have opens : (Document.text " \x7b").Flows
        ((Document.text (branchHeader branch)).endsInBreak true) := by
      rw [head.ends]
      exact ⟨by simp, fun same => absurd same Bool.false_ne_true⟩
    have opened : (Document.text " \x7b").endsInBreak
        ((Document.text (branchHeader branch)).endsInBreak true) = false := by
      rw [head.ends]
      rfl
    exact ⟨⟨head.flows, opens, ⟨opened, inner.flows⟩, inner.endsInBreak_eq _, brace.flows⟩,
      brace.ends⟩

/-- The documents of consecutive outlines are blocks if that of each is. -/
theorem block_documents {outlines : List Outline}
    (blocks : ∀ outline ∈ outlines, outline.document.Block) :
    ∀ document ∈ documents outlines, document.Block := by
  induction outlines with
  | nil => exact fun _ member => absurd member List.not_mem_nil
  | cons outline outlines ih =>
    obtain ⟨first, others⟩ := List.forall_mem_cons.1 blocks
    rw [documents]
    exact List.forall_mem_cons.2 ⟨first, ih others⟩

end Outline

namespace Node

/-- The document of a node is a block, if those of the nodes attached before it are and its name, if
it has one, is blankless. -/
theorem block_outline {earlier : Array Outline} {node : Node}
    (blocks : ∀ outline ∈ earlier, outline.document.Block)
    (blankless : ∀ top, node = .branch top → Blankless top.name) :
    (node.outline earlier).document.Block := by
  cases node with
  | leaf tip => exact Outline.block_leafText tip
  | branch top =>
    refine Outline.block_branchDocument (blankless top rfl) (Outline.block_documents ?_)
    intro outline member
    obtain ⟨id, -, here⟩ := List.mem_filterMap.1 member
    exact blocks outline (Array.mem_of_getElem? here)

/-- The documents of all nodes are blocks, if the names in them are blankless. -/
theorem block_outlines {nodes : Array Node}
    (blankless : ∀ top, .branch top ∈ nodes → Blankless top.name) :
    ∀ outline ∈ outlines nodes, outline.document.Block := by
  refine Array.foldl_induction
    (motive := fun _ (earlier : Array Outline) => ∀ outline ∈ earlier, outline.document.Block)
    (fun _ member => absurd member (Array.not_mem_empty _)) ?_
  intro place earlier blocks outline member
  rcases Array.mem_push.1 member with old | rfl
  · exact blocks outline old
  · refine block_outline blocks fun top same => blankless top ?_
    rw [← same]
    exact Array.getElem_mem place.2

/-- The outlines below ids are those of the nodes with these ids. -/
theorem outlinesBelow_eq_map {nodes : Array Node} (descending : Descending nodes)
    (ids : List Nat) :
    outlinesBelow nodes ids =
      (ids.filterMap fun id => nodes[id]?).map fun node => node.outline (outlines nodes) := by
  induction ids with
  | nil => rfl
  | cons id ids ih =>
    cases here : nodes[id]? with
    | some node =>
      rw [outlinesBelow_cons descending here, List.filterMap_cons_some here, List.map_cons, ih]
    | none =>
      have absent : (outlines nodes)[id]? = none := by
        rw [Array.getElem?_eq_none_iff, size_outlines]
        exact Array.getElem?_eq_none_iff.1 here
      rw [outlinesBelow, List.filterMap_cons_none absent, List.filterMap_cons_none here, ← ih,
        outlinesBelow]

end Node

/-! ## The names in a tree -/

namespace Assembly

variable {network : Network} {tokens : Array Token}

/-- **Named assemblies.** Open rules and branches have the names of their rules. -/
structure Named (network : Network) (assembly : Assembly) : Prop where
  /-- An open rule has its name. -/
  opened : ∀ branch ∈ assembly.branches, network.ruleName? branch.rule = some branch.name
  /-- A branch has the name of its rule. -/
  closed : ∀ branch, .branch branch ∈ assembly.nodes →
    network.ruleName? branch.rule = some branch.name

/-- Attaching a node that has the name of its rule, if it is a branch, keeps an assembly named. -/
theorem Named.attach {assembly : Assembly} (named : assembly.Named network) {node : Node}
    (own : ∀ branch, node = .branch branch → network.ruleName? branch.rule = some branch.name) :
    (assembly.attach node).Named network := by
  obtain ⟨innermost, outer, before, after⟩ := branches_attach node assembly
  have opened := named.opened
  rw [before] at opened
  obtain ⟨first, others⟩ := List.forall_mem_cons.1 opened
  refine ⟨?_, ?_⟩
  · rw [after]
    exact List.forall_mem_cons.2 ⟨first, others⟩
  · intro branch member
    rw [nodes_attach] at member
    rcases Array.mem_push.1 member with old | new
    · exact named.closed branch old
    · exact own branch new.symm

/-- Exiting a rule keeps an assembly named. -/
theorem Named.exitInnermost {assembly : Assembly} (named : assembly.Named network) :
    assembly.exitInnermost.Named network := by
  obtain ⟨cursor, nodes, root, openBranches⟩ := assembly
  cases openBranches with
  | nil => exact named
  | cons innermost outer =>
    obtain ⟨first, others⟩ := List.forall_mem_cons.1 named.opened
    have around : (Assembly.mk cursor nodes root outer).Named network := ⟨others, named.closed⟩
    refine around.attach fun branch same => ?_
    cases same
    exact first

/-- **Accepted events keep an assembly named.** -/
theorem Named.accepts {event : Event} {assembly later : Assembly}
    (named : assembly.Named network) (accepted : Accepts network tokens event assembly later) :
    later.Named network := by
  cases accepted with
  | enter known => exact ⟨List.forall_mem_cons.2 ⟨known, named.opened⟩, named.closed⟩
  | exit isOpen => exact named.exitInnermost
  | @consume _ token read =>
    have own : ∀ branch, Node.leaf ⟨assembly.cursor, token⟩ = .branch branch →
        network.ruleName? branch.rule = some branch.name := fun _ same => by cases same
    exact ⟨(named.attach own).opened, (named.attach own).closed⟩

end Assembly

namespace ParseTree

variable {network : Network} {tokens : Array Token} {startRule : Nat} {events : List Event}
  {tree : ParseTree}

/-- **The branches of an assembled tree have the names of their rules.** -/
theorem ruleName?_of_assemble (assembled : assemble network tokens startRule events = .ok tree)
    {branch : Branch} (here : tree.HasBranch branch) :
    network.ruleName? branch.rule = some branch.name := by
  obtain ⟨name, last, known, taken, rfl⟩ := assemble_eq_ok_iff.1 assembled
  have rooted : (Assembly.rooted startRule name).Named network :=
    ⟨List.forall_mem_singleton.2 known, fun _ member => absurd member (Array.not_mem_empty _)⟩
  have named := Assembly.pushAll_invariant (Assembly.Named network)
    (fun _ _ _ accepted named => named.accepts accepted) taken rooted
  have closed := Assembly.exitMany_invariant (Assembly.Named network)
    (fun _ named => named.exitInnermost) last.openBranches.length named
  rcases here with rfl | member
  · exact closed.opened _ (List.mem_append_right _ (List.mem_singleton_self _))
  · exact closed.closed branch member

/-- **The line of a node** of a tree: its text on one line. -/
def lineOf (tree : ParseTree) (node : Node) : String := (node.outline tree.outlines).oneLine

/-- **The line of a branch is told by those of its children.** -/
theorem lineOf_branch (descending : Node.Descending tree.nodes) (branch : Branch) :
    tree.lineOf (.branch branch) =
      Outline.branchLine branch ((tree.children branch).map tree.lineOf) := by
  have below := Node.outlinesBelow_eq_map descending branch.children.toList
  have children : tree.lineOf (.branch branch) = Outline.branchLine branch
      (Outline.oneLines (Node.outlinesBelow tree.nodes branch.children.toList)) := rfl
  rw [children, below, Outline.oneLines_eq_map, List.map_map]
  rfl

end ParseTree

/-! ## Listings -/

namespace Document

/-- Documents that flow behind a break do so with a semicolon and a break between them. -/
theorem flows_joined_semicolon {documents : List Document}
    (flows : ∀ document ∈ documents, document.Flows true) :
    (joined (text ";" ++ line) documents).Flows true := by
  match documents with
  | [] => trivial
  | [document] => exact flows document (List.mem_singleton_self _)
  | document :: next :: rest =>
    obtain ⟨first, others⟩ := List.forall_mem_cons.1 flows
    have behind := flows_joined_semicolon others
    have semicolon : (text ";").Flows (document.endsInBreak true) := by simp [Flows]
    have ends : (text ";").endsInBreak (document.endsInBreak true) = false := by
      simp [endsInBreak]
    exact ⟨first, ⟨semicolon, ends⟩, behind⟩

end Document

namespace Blueprint

variable {blueprint : Blueprint}

/-- A rule is shown on one line, if names are blankless. -/
theorem unbroken_ruleReference (blankless : ∀ rule ∈ blueprint.rules, Blankless rule.name)
    (rule : Nat) : Unbroken (blueprint.ruleReference rule) := by
  have opened : Unbroken "<" := by simp [Unbroken]
  have closed : Unbroken ">" := by simp [Unbroken]
  have sign : Unbroken "<#" := by simp [Unbroken]
  unfold ruleReference
  cases named : blueprint.ruleName? rule with
  | none => simp [sign, closed]
  | some name =>
    obtain ⟨here, known, rfl⟩ := Option.map_eq_some_iff.1 named
    have name : Unbroken here.name := (blankless here (Array.mem_of_getElem? known)).2
    simp [opened, name, closed]

/-- A rule is shown between angle brackets. -/
theorem head?_ruleReference (blueprint : Blueprint) (rule : Nat) :
    (blueprint.ruleReference rule).toList.head? = some '<' := by
  unfold ruleReference
  split <;> simp

/-- The head of a state's entry is a block. -/
theorem block_stateHeader (blankless : ∀ rule ∈ blueprint.rules, Blankless rule.name) (id : Nat)
    (kind : StateKind) : (Document.text (blueprint.stateHeader id kind ++ ":")).Block := by
  have starts : Unbroken " start " := by simp [Unbroken]
  have stops : Unbroken " stop " := by simp [Unbroken]
  have colon : Unbroken ":" := by simp [Unbroken]
  have reference := unbroken_ruleReference blankless
  have oneLine : Unbroken (blueprint.stateHeader id kind ++ ":") := by
    cases kind <;> simp [stateHeader, starts, stops, colon, reference]
  refine block_append oneLine ⟨'s', ?_, by decide⟩
  cases kind <;> simp [stateHeader, stateText]

/-- The entry of a transition is a block. -/
theorem block_transitionText (blankless : ∀ rule ∈ blueprint.rules, Blankless rule.name)
    (transition : Transition) : (Document.text (blueprint.transitionText transition)).Block := by
  have arrow : Unbroken " -> " := by simp [Unbroken]
  have reference := unbroken_ruleReference blankless
  have oneLine : Unbroken (blueprint.transitionText transition) := by
    cases transition <;> simp [transitionText, arrow, reference]
  cases transition with
  | terminal matcher target =>
    rw [transitionText, String.append_assoc] at oneLine ⊢
    refine block_append oneLine ⟨matcher.mark, matcher.head?_text, ?_⟩
    cases matcher <;> simp [Matcher.mark]
  | call start follow rule =>
    rw [transitionText, String.append_assoc] at oneLine ⊢
    exact block_append oneLine ⟨'<', blueprint.head?_ruleReference rule, by decide⟩
  | epsilon kind target =>
    rw [transitionText, String.append_assoc] at oneLine ⊢
    cases kind
    · exact block_append oneLine ⟨'P', rfl, by decide⟩
    · exact block_append oneLine ⟨'P', rfl, by decide⟩
    · exact block_append oneLine ⟨'A', rfl, by decide⟩
    · exact block_append oneLine ⟨'P', rfl, by decide⟩

/-- The entry of a state flows behind a break; without transitions it ends in one. -/
theorem flows_stateDocument (blankless : ∀ rule ∈ blueprint.rules, Blankless rule.name) (id : Nat)
    (state : State) : (blueprint.stateDocument id state).Flows true := by
  have head := block_stateHeader blankless id state.kind
  have blocks : ∀ document ∈ state.transitions.map fun transition =>
      Document.text (blueprint.transitionText transition), document.Block := by
    intro document member
    obtain ⟨transition, -, rfl⟩ := List.mem_map.1 member
    exact block_transitionText blankless transition
  refine ⟨head.flows, head.ends, ?_⟩
  cases entries : state.transitions.map fun transition =>
      Document.text (blueprint.transitionText transition) with
  | nil => trivial
  | cons first others =>
    rw [entries] at blocks
    exact (Document.block_joined blocks).flows

/-- **The listing of a network flows,** if names are blankless. -/
theorem flows_document (blankless : ∀ rule ∈ blueprint.rules, Blankless rule.name) :
    blueprint.document.Flows false := by
  have flows : blueprint.document.Flows true := by
    refine Document.flows_joined_semicolon fun document member => ?_
    obtain ⟨⟨state, id⟩, -, rfl⟩ := List.mem_map.1 member
    exact flows_stateDocument blankless id state
  exact flows.mono fun _ => rfl

end Blueprint

/-- **The width of the page changes only line breaks,** if no name of a rule has a space or a new
line in it. Typesetting an assembled tree ends with a document whose text, on a page of any width
and with its lines joined, is the line of the root: a leaf is shown by its place and its token, and
a branch by its head and, if it has children, their lines between braces. The listing of the network
is the same on pages of any two widths, once its lines are joined. -/
theorem Network.joinLines_pages (network : Network)
    (blankless : ∀ rule ∈ network.rules, Blankless rule.name) :
    (∀ tokens startRule events tree,
      ParseTree.assemble network tokens startRule events = .ok tree →
        (∃ document,
          tree.typesetting.turns tree.nodes ((completed events).length + 1) = .done document ∧
            ∀ width, document.print width = tree.text width) ∧
        (∀ leaf, tree.lineOf (.leaf leaf) = Outline.leafText leaf) ∧
        (∀ branch, tree.lineOf (.branch branch) =
          Outline.branchLine branch ((tree.children branch).map tree.lineOf)) ∧
        ∀ width, joinLines (tree.text width) = tree.lineOf (.branch tree.root)) ∧
      ∀ width other, joinLines (network.listing width) = joinLines (network.listing other) := by
  refine ⟨?_, ?_⟩
  · intro tokens startRule events tree assembled
    have listing := ParseTree.listing_eq assembled
    have fine : ∀ branch, tree.HasBranch branch → Blankless branch.name := by
      intro branch here
      obtain ⟨rule, known, same⟩ :=
        Option.map_eq_some_iff.1 (ParseTree.ruleName?_of_assemble assembled here)
      exact same ▸ blankless rule (Array.mem_of_getElem? known)
    obtain ⟨name, last, known, taken, rfl⟩ := ParseTree.assemble_eq_ok_iff.1 assembled
    have numbered := Assembly.pushAll_invariant Assembly.Numbered
      (fun _ _ _ accepted numbered => numbered.accepts accepted) taken
      (Assembly.numbered_rooted startRule name)
    obtain ⟨descending, inUse, -⟩ := numbered.finish
    have block : last.finish.outline.document.Block := Node.block_outline
      (Node.block_outlines fun top member => fine top (Or.inr member))
      (fun top same => fine top (Or.inl (Node.branch.inj same).symm))
    have typeset := ParseTree.turns_typesetting descending inUse
    rw [listing] at typeset
    refine ⟨⟨_, typeset, fun _ => rfl⟩, fun _ => rfl, ParseTree.lineOf_branch descending, ?_⟩
    intro width
    exact (Document.joinLines_print (block.flows_any false) width).trans
      (Outline.oneLine_document _)
  · intro width other
    have flows := Blueprint.flows_document blankless
    exact (Document.joinLines_print flows width).trans (Document.joinLines_print flows other).symm

/-- The tree of two sevens in the sample has line breaks on a narrow page and none on a wide one,
and the same text once its lines are joined; so has the listing of the sample. -/
theorem Network.joinLines_pages_doubling :
    (∀ rule ∈ doubling.rules, Blankless rule.name) ∧
      ∃ tree, ParseTree.assemble doubling #[7, 7]
          0 [.enter 0, .consume 0, .exit 0, .enter 0, .consume 1, .enter 0] = .ok tree ∧
        tree.text 20 ≠ tree.text 80 ∧
        joinLines (tree.text 20) =
          "S[0..2) \x7b S[0..1) \x7b #0:7 \x7d S[1..2) \x7b #1:7 S[2..2) \x7d \x7d" ∧
        doubling.listing 20 ≠ doubling.listing 80 ∧
        joinLines (doubling.listing 20) = joinLines (doubling.listing 80) := by
  have blankless : ∀ rule ∈ doubling.rules, Blankless rule.name := by
    intro rule member
    obtain rfl : rule = ⟨"S", 0, 1⟩ := by simpa [doubling] using member
    simp [Blankless]
  have assembled : ParseTree.assemble doubling #[7, 7]
      0 [.enter 0, .consume 0, .exit 0, .enter 0, .consume 1, .enter 0] =
        .ok ⟨⟨0, "S", ⟨0, 2⟩, #[1, 4]⟩, #[.leaf ⟨0, 7⟩, .branch ⟨0, "S", ⟨0, 1⟩, #[0]⟩,
          .leaf ⟨1, 7⟩, .branch ⟨0, "S", ⟨2, 2⟩, #[]⟩, .branch ⟨0, "S", ⟨1, 2⟩, #[2, 3]⟩]⟩ := by
    decide +kernel
  obtain ⟨trees, listings⟩ := joinLines_pages doubling blankless
  obtain ⟨-, -, -, lines⟩ := trees _ _ _ _ assembled
  refine ⟨blankless, _, assembled, by decide +kernel, (lines 20).trans (by decide +kernel),
    by decide +kernel, listings 20 80⟩

end TransitionNetworks
