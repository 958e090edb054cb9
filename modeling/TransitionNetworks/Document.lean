/-!
# Documents

A document is text with possible line breaks. `Document.print` lays it out for a page of a given
width: a group is printed flat, with a space for each of its breaks, if that fits, and otherwise its
breaks become new lines, indented as deep as they are nested, and the groups inside it are tried in
turn.

A group fits if the column in which it begins, its flat width and the width of what stands behind it
up to the next possible break come to no more than the width of the page. What stands behind a group
is reckoned as if its own breaks were new lines. All widths are numbers of bytes.
-/

namespace TransitionNetworks

/-- Text with possible line breaks. -/
inductive Document where
  /-- Nothing. -/
  | empty
  /-- A piece of text without breaks. -/
  | text (content : String)
  /-- A possible break: a space if printed flat, else a new line. -/
  | line
  /-- A document whose new lines are indented deeper by a number of columns. -/
  | nested (depth : Nat) (content : Document)
  /-- A document that is printed flat if it fits. -/
  | group (content : Document)
  /-- Two documents one after the other. -/
  | append (first second : Document)
  deriving DecidableEq

namespace Document

instance : Append Document := ⟨append⟩

instance : EmptyCollection Document := ⟨empty⟩

/-- Documents one after the other with a separator between them. -/
def joined (separator : Document) : List Document → Document
  | [] => empty
  | [document] => document
  | document :: next :: rest => document ++ (separator ++ joined separator (next :: rest))

/-- The width of a document that is printed flat. -/
def flatWidth : Document → Nat
  | empty => 0
  | text content => content.utf8ByteSize
  | line => 1
  | nested _ content => content.flatWidth
  | group content => content.flatWidth
  | append first second => first.flatWidth + second.flatWidth

/-- Whether a document has a possible break. -/
def breaks : Document → Bool
  | empty => false
  | text _ => false
  | line => true
  | nested _ content => content.breaks
  | group content => content.breaks
  | append first second => first.breaks || second.breaks

/-- The width of a document up to its first possible break, or all of it with `rest` behind it. -/
def reach (rest : Nat) : Document → Nat
  | empty => rest
  | text content => content.utf8ByteSize + rest
  | line => 0
  | nested _ content => content.reach rest
  | group content => content.reach rest
  | append first second => first.reach (if first.breaks then 0 else second.reach rest)

/-- The first part of a document that breaks hides the second. -/
theorem reach_append (rest : Nat) (first second : Document) :
    (append first second).reach rest = first.reach (second.reach rest) := by
  have hidden : ∀ (document : Document), document.breaks = true →
      ∀ near far : Nat, document.reach near = document.reach far := by
    intro document
    induction document with
    | empty => simp [breaks]
    | text => simp [breaks]
    | line => simp [reach]
    | nested _ _ ih => simpa [breaks, reach] using ih
    | group _ ih => simpa [breaks, reach] using ih
    | append first second firstHypothesis secondHypothesis =>
      intro either near far
      unfold reach
      by_cases broken : first.breaks = true
      · simp [broken]
      · have later : second.breaks = true := by simpa [breaks, broken] using either
        simp [broken, secondHypothesis later near far]
  show first.reach (if first.breaks then 0 else second.reach rest) = first.reach (second.reach rest)
  split
  · rename_i broken
    exact hidden first broken _ _
  · rfl

end Document

/-- How the breaks of a document are printed. -/
inductive Breaking where
  /-- As spaces. -/
  | flat
  /-- As new lines. -/
  | broken
  deriving DecidableEq

/-- A page written so far. -/
structure Page where
  /-- What is written. -/
  text : String
  /-- How many bytes are written behind the last break. -/
  column : Nat
  deriving DecidableEq

namespace Page

/-- The page on which nothing is written. -/
def blank : Page := ⟨"", 0⟩

/-- Write a piece of text. -/
def write (content : String) : Page → Page
  | ⟨text, column⟩ => ⟨text ++ content, column + content.utf8ByteSize⟩

/-- Begin a new line at an indentation. -/
def newLine (indentation : Nat) : Page → Page
  | ⟨text, _⟩ => ⟨(text.push '\n').pushn ' ' indentation, indentation⟩

end Page

namespace Document

/-- Print a document onto a page of a given width, at an indentation and with its breaks printed as
given, when text of width `rest` follows up to the next break behind it. -/
def printOnto (width : Nat) : Document → Breaking → Nat → Nat → Page → Page
  | empty, _, _, _, page => page
  | text content, _, _, _, page => page.write content
  | line, .flat, _, _, page => page.write " "
  | line, .broken, indentation, _, page => page.newLine indentation
  | nested depth content, breaking, indentation, rest, page =>
    content.printOnto width breaking (indentation + depth) rest page
  | group content, .flat, indentation, rest, page =>
    content.printOnto width .flat indentation rest page
  | group content, .broken, indentation, rest, page =>
    if page.column + content.flatWidth + rest ≤ width then
      content.printOnto width .flat indentation rest page
    else
      content.printOnto width .broken indentation rest page
  | append first second, breaking, indentation, rest, page =>
    second.printOnto width breaking indentation rest
      (first.printOnto width breaking indentation (second.reach rest) page)

/-- The text of a document on a page of a given width. -/
def print (width : Nat) (document : Document) : String :=
  (document.printOnto width .broken 0 0 Page.blank).text

/-- The width of a page where no other is asked for. -/
def defaultWidth : Nat := 80

@[simp] theorem joined_nil (separator : Document) : joined separator [] = empty := rfl

@[simp] theorem joined_singleton (separator document : Document) :
    joined separator [document] = document := rfl

/-- A text is printed as it is on every page. -/
@[simp] theorem print_text (width : Nat) (content : String) :
    (text content).print width = content := by
  simp [print, printOnto, Page.write, Page.blank]

end Document

end TransitionNetworks
