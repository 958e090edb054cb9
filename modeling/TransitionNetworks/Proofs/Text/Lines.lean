import TransitionNetworks.Document
import Mathlib.Data.List.Basic

/-! # The one line of a document

However wide the page is, a document has the same text but for its line breaks. Joining the lines of
a text (`joinLines`) puts a space in place of every new line and the spaces that indent it. What is
printed of a document and joined so is its text on one line (`Document.joinLines_print`), in which
every break is a space.

This asks for documents that flow (`Document.Flows`): a text has no new line of its own, and behind
a break comes something that does not begin with a space, which would be taken for indentation.
Documents that can stand behind a break and in front of one (`Document.Block`) stay such when they
are joined by breaks. -/

namespace TransitionNetworks

/-! ## Joining lines -/

/-- Put a space in place of every new line and the spaces that indent it. Spaces that come first are
left out if they are the rest of an indentation. -/
def joinFrom (indenting : Bool) : List Char → List Char
  | [] => []
  | letter :: rest =>
    if letter = '\n' then ' ' :: joinFrom true rest
    else if indenting && letter = ' ' then joinFrom true rest
    else letter :: joinFrom false rest

/-- **The lines of a text joined,** with a space for every new line and its indentation. -/
def joinLines (text : String) : String := String.ofList (joinFrom false text.toList)

/-- Whether spaces are indentation behind some letters, given whether they are in front. -/
def indentsBehind (indenting : Bool) : List Char → Bool
  | [] => indenting
  | letter :: rest => indentsBehind (letter = '\n' || (indenting && letter = ' ')) rest

/-- In an indentation the spaces in front are left out. -/
theorem joinFrom_true (letters : List Char) :
    joinFrom true letters = joinFrom false (letters.dropWhile (· = ' ')) := by
  induction letters with
  | nil => rfl
  | cons letter rest ih =>
    by_cases space : letter = ' '
    · subst space
      simpa [joinFrom] using ih
    · simp [joinFrom, space]

/-- A new line is joined by a space in place of it and the spaces that follow. -/
theorem joinFrom_newLine (indenting : Bool) (rest : List Char) :
    joinFrom indenting ('\n' :: rest) = ' ' :: joinFrom false (rest.dropWhile (· = ' ')) := by
  rw [joinFrom, if_pos rfl, joinFrom_true]

/-- Letters are joined one part after the other. -/
theorem joinFrom_append (indenting : Bool) (first second : List Char) :
    joinFrom indenting (first ++ second) =
      joinFrom indenting first ++ joinFrom (indentsBehind indenting first) second := by
  induction first generalizing indenting with
  | nil => rfl
  | cons letter rest ih =>
    rw [List.cons_append, joinFrom, joinFrom, indentsBehind]
    by_cases newLine : letter = '\n'
    · simp [newLine, ih]
    · by_cases space : indenting = true ∧ letter = ' '
      · simp [space, ih]
      · by_cases inside : indenting = true
        · have visible : letter ≠ ' ' := fun same => space ⟨inside, same⟩
          simp [newLine, visible, ih]
        · simp [newLine, inside, ih]

/-- Whether spaces are indentation is handed on from letters to letters. -/
theorem indentsBehind_append (indenting : Bool) (first second : List Char) :
    indentsBehind indenting (first ++ second) =
      indentsBehind (indentsBehind indenting first) second := by
  induction first generalizing indenting with
  | nil => rfl
  | cons letter rest ih => exact ih _

/-- The spaces of an indentation are left out. -/
theorem join_replicate (count : Nat) :
    joinFrom true (List.replicate count ' ') = [] ∧
      indentsBehind true (List.replicate count ' ') = true := by
  induction count with
  | zero => exact ⟨rfl, rfl⟩
  | succ count ih => simpa [List.replicate_succ, joinFrom, indentsBehind] using ih

/-- Letters on one line stay, and a letter that is not left out ends an indentation. -/
theorem join_of_flows {letters : List Char} {indenting : Bool} (oneLine : '\n' ∉ letters)
    (visible : indenting = true → letters.head? ≠ some ' ') :
    joinFrom indenting letters = letters ∧
      indentsBehind indenting letters = (indenting && letters.isEmpty) := by
  induction letters generalizing indenting with
  | nil => simp [joinFrom, indentsBehind]
  | cons letter rest ih =>
    obtain ⟨other, oneLine⟩ := not_or.1 (mt List.mem_cons.2 oneLine)
    have outside : false = true → rest.head? ≠ some ' ' := fun same => by cases same
    obtain ⟨stays, ends⟩ := ih oneLine outside
    have kept : ¬ (indenting = true ∧ letter = ' ') := fun ⟨inside, space⟩ =>
      visible inside (congrArg some space)
    have kept : (indenting && decide (letter = ' ')) = false := by simpa using kept
    rw [Bool.false_and] at ends
    simp [joinFrom, indentsBehind, Ne.symm other, kept, stays, ends]

namespace Document

/-! ## The text of a document on one line -/

/-- **The text of a document on one line,** with a space for every break. -/
def oneLine : Document → String
  | empty => ""
  | text content => content
  | line => " "
  | nested _ content => content.oneLine
  | group content => content.oneLine
  | append first second => first.oneLine ++ second.oneLine

/-- Whether a document may end with a break, given whether there may be one right in front. -/
def endsInBreak (broken : Bool) : Document → Bool
  | empty => broken
  | text content => broken && content.toList.isEmpty
  | line => true
  | nested _ content => content.endsInBreak broken
  | group content => content.endsInBreak broken
  | append first second => second.endsInBreak (first.endsInBreak broken)

/-- **Documents that flow,** given whether there may be a break right in front: texts have no new
line, and behind a break comes a text that does not begin with a space. -/
def Flows (broken : Bool) : Document → Prop
  | empty => True
  | text content =>
    '\n' ∉ content.toList ∧ (broken = true → content.toList.head? ≠ some ' ')
  | line => broken = false
  | nested _ content => content.Flows broken
  | group content => content.Flows broken
  | append first second => first.Flows broken ∧ second.Flows (first.endsInBreak broken)

/-- Documents in a row are on one line in a row. -/
theorem oneLine_append (first second : Document) :
    (first ++ second).oneLine = first.oneLine ++ second.oneLine := rfl

/-- Without a break in front a document ends in a break only if it does so with one in front. -/
theorem endsInBreak_mono {document : Document} {broken behind : Bool}
    (less : broken = true → behind = true) (ends : document.endsInBreak broken = true) :
    document.endsInBreak behind = true := by
  induction document generalizing broken behind with
  | empty => exact less ends
  | text content =>
    simp only [endsInBreak, Bool.and_eq_true] at ends ⊢
    exact ⟨less ends.1, ends.2⟩
  | line => rfl
  | nested depth content ih => exact ih less ends
  | group content ih => exact ih less ends
  | append first second ihFirst ihSecond => exact ihSecond (ihFirst less) ends

/-- A document that flows behind a break flows anywhere. -/
theorem Flows.mono {document : Document} {broken behind : Bool}
    (flows : document.Flows behind) (less : broken = true → behind = true) :
    document.Flows broken := by
  induction document generalizing broken behind with
  | empty => trivial
  | text content => exact ⟨flows.1, fun inside => flows.2 (less inside)⟩
  | line =>
    cases broken with
    | false => rfl
    | true => exact absurd (less rfl) (Bool.eq_false_iff.1 flows)
  | nested depth content ih => exact ih flows less
  | group content ih => exact ih flows less
  | append first second ihFirst ihSecond =>
    exact ⟨ihFirst flows.1 less, ihSecond flows.2 (endsInBreak_mono less)⟩

end Document

/-- The letters of a text with letters put behind it. -/
theorem toList_pushn (text : String) (letter : Char) (count : Nat) :
    (text.pushn letter count).toList = text.toList ++ List.replicate count letter := by
  induction count generalizing text with
  | zero => simp [String.pushn, Nat.repeat]
  | succ count ih =>
    have last : text.pushn letter (count + 1) = (text.pushn letter count).push letter := rfl
    rw [last, String.toList_push, ih, List.append_assoc, List.replicate_succ']

namespace Document

/-- **What is printed of a document that flows** is its text on one line, once lines are joined. The
page may end in an indentation only where a break may stand in front of the document. -/
theorem exists_printOnto (width : Nat) {document : Document} {broken : Bool}
    (flows : document.Flows broken) (breaking : Breaking) (indentation rest : Nat) (page : Page) :
    ∃ printed, (document.printOnto width breaking indentation rest page).text.toList =
        page.text.toList ++ printed ∧
      ∀ indenting, (indenting = true → broken = true) →
        joinFrom indenting printed = document.oneLine.toList ∧
          (indentsBehind indenting printed = true → document.endsInBreak broken = true) := by
  induction document generalizing broken breaking indentation rest page with
  | empty =>
    refine ⟨[], (List.append_nil _).symm, fun indenting less => ⟨rfl, less⟩⟩
  | text content =>
    refine ⟨content.toList, String.toList_append, fun indenting less => ?_⟩
    obtain ⟨stays, ends⟩ := join_of_flows flows.1 fun inside => flows.2 (less inside)
    refine ⟨stays, fun indents => ?_⟩
    rw [ends, Bool.and_eq_true] at indents
    simp only [endsInBreak, less indents.1, indents.2, Bool.and_self]
  | line =>
    have outside : ∀ indenting, (indenting = true → broken = true) → indenting = false :=
      fun indenting less => Bool.eq_false_iff.2 (mt less (Bool.eq_false_iff.1 flows))
    cases breaking with
    | flat =>
      refine ⟨[' '], String.toList_append, fun indenting less => ?_⟩
      rw [outside indenting less]
      exact ⟨rfl, fun _ => rfl⟩
    | broken =>
      refine ⟨'\n' :: List.replicate indentation ' ', ?_, fun indenting less => ?_⟩
      · show ((page.text.push '\n').pushn ' ' indentation).toList = _
        rw [toList_pushn, String.toList_push, List.append_assoc]
        rfl
      · rw [joinFrom, if_pos rfl, (join_replicate indentation).1]
        exact ⟨rfl, fun _ => rfl⟩
  | nested depth content ih => exact ih flows breaking (indentation + depth) rest page
  | group content ih =>
    cases breaking with
    | flat => exact ih flows .flat indentation rest page
    | broken =>
      -- flat or broken, the content is the same on one line
      simp only [printOnto]
      split
      · exact ih flows .flat indentation rest page
      · exact ih flows .broken indentation rest page
  | append first second ihFirst ihSecond =>
    obtain ⟨front, frontPrinted, frontJoined⟩ :=
      ihFirst flows.1 breaking indentation (second.reach rest) page
    obtain ⟨back, backPrinted, backJoined⟩ := ihSecond flows.2 breaking indentation rest
      (first.printOnto width breaking indentation (second.reach rest) page)
    refine ⟨front ++ back, ?_, fun indenting less => ?_⟩
    · rw [printOnto, backPrinted, frontPrinted, List.append_assoc]
    · obtain ⟨frontStays, frontEnds⟩ := frontJoined indenting less
      obtain ⟨backStays, backEnds⟩ := backJoined _ frontEnds
      rw [joinFrom_append, indentsBehind_append, frontStays, backStays]
      exact ⟨String.toList_append.symm, backEnds⟩

/-- **Line width changes only line breaks.** On a page of any width a document that flows has the
same text, once lines are joined: its text on one line. -/
theorem joinLines_print {document : Document} (flows : document.Flows false) (width : Nat) :
    joinLines (document.print width) = document.oneLine := by
  obtain ⟨printed, all, joined⟩ := exists_printOnto width flows .broken 0 0 Page.blank
  have same : (document.print width).toList = printed := all
  rw [joinLines, same, (joined false fun inside => inside).1, String.ofList_toList]

/-! ## Blocks -/

/-- **Blocks** can stand behind a break, and in front of one. -/
structure Block (document : Document) : Prop where
  /-- A block flows behind a break. -/
  flows : document.Flows true
  /-- A block does not end in a break. -/
  ends : document.endsInBreak true = false

/-- A block ends in no break, whatever is in front. -/
theorem Block.endsInBreak_eq {document : Document} (block : document.Block) (broken : Bool) :
    document.endsInBreak broken = false :=
  Bool.eq_false_iff.2 fun ends =>
    Bool.eq_false_iff.1 block.ends (endsInBreak_mono (fun _ => rfl) ends)

/-- A block flows anywhere. -/
theorem Block.flows_any {document : Document} (block : document.Block) (broken : Bool) :
    document.Flows broken :=
  block.flows.mono fun _ => rfl

/-- A text on one line that begins with something else than a space is a block. -/
theorem block_text {content : String} (oneLine : '\n' ∉ content.toList)
    (begins : ∃ letter ∈ content.toList.head?, letter ≠ ' ') : (text content).Block := by
  obtain ⟨letter, first, visible⟩ := begins
  have first : content.toList.head? = some letter := first
  refine ⟨⟨oneLine, fun _ space => ?_⟩, ?_⟩
  · rw [first] at space
    exact visible (Option.some.inj space)
  · cases letters : content.toList with
    | nil =>
      rw [letters] at first
      cases first
    | cons _ _ => simp [endsInBreak, letters]

/-- **Blocks joined by breaks** are a block, if there are any. -/
theorem block_joined {first : Document} {others : List Document}
    (blocks : ∀ document ∈ first :: others, document.Block) :
    (joined line (first :: others)).Block := by
  induction others generalizing first with
  | nil => exact blocks first (List.mem_cons_self ..)
  | cons next others ih =>
    obtain ⟨block, rest⟩ := List.forall_mem_cons.1 blocks
    have behind := ih rest
    refine ⟨⟨block.flows, block.ends, behind.flows⟩, ?_⟩
    exact behind.endsInBreak_eq _

/-- The text of documents joined by breaks on one line. -/
theorem oneLine_joined_line (documents : List Document) :
    (joined line documents).oneLine = " ".intercalate (documents.map oneLine) := by
  match documents with
  | [] => rfl
  | [document] => simp [joined, String.intercalate_singleton]
  | document :: next :: rest =>
    have behind := oneLine_joined_line (next :: rest)
    simp only [joined, oneLine_append, behind, List.map_cons, String.intercalate_cons_cons]
    simp [oneLine, String.append_assoc]

end Document

end TransitionNetworks
