import TransitionNetworks.Provenance

/-!
# Occurrences

A run leaves a history: a list of what happened, in order. Two accounts of it are given. The notices
are for an observer: a rule was predicted or completed, a token was scanned, the input was accepted
or rejected. The log is for a reader: a line of text with a level for each occurrence that is worth
one. Both are determined by the history and the tokens of the input.
-/

namespace TransitionNetworks

/-- What can happen in a run. -/
inductive Occurrence where
  /-- Tokens behind the end marker at a position are left aside. -/
  | ignored (count position : Nat)
  /-- An item is found at a position where it was not known. -/
  | found (position : Nat) (item : Item) (why : Provenance)
  /-- A rule stops inside a call of another rule. -/
  | strayStop (stop : Item) (rule called : Nat)
  /-- A position is left with so many items there, and so many already at the next. -/
  | surveyed (position items scanned : Nat)
  /-- The input is accepted with an item at a position. -/
  | accepted (position : Nat) (item : Item)
  /-- The input of so many tokens is rejected. -/
  | rejected (count : Nat)
  deriving DecidableEq

/-- What an observer is told. -/
inductive Notice where
  /-- The start of a rule is found at a position. -/
  | predict (position : Nat) (item : Item) (rule : Nat)
  /-- An item behind a call of a rule is found at a position. -/
  | complete (position : Nat) (item : Item) (rule : Nat)
  /-- An item behind a token is found at a position. -/
  | scan (position : Nat) (item : Item) (token : Token)
  /-- The input is accepted. -/
  | accept (position : Nat) (item : Item)
  /-- The input is rejected. -/
  | reject (position : Nat)
  deriving DecidableEq

/-- The levels of a log. -/
inductive LogLevel where
  /-- Single steps. -/
  | trace
  /-- The course of a run. -/
  | debug
  /-- What may be a mistake of the caller. -/
  | warn
  deriving DecidableEq

/-- The name of a level. -/
def LogLevel.text : LogLevel → String
  | trace => "TRACE"
  | debug => "DEBUG"
  | warn => "WARN"

/-- A line of a log. -/
structure LogLine where
  /-- The level. -/
  level : LogLevel
  /-- The text. -/
  text : String
  deriving DecidableEq

/-- How a log mentions a token. -/
def mentionToken (token : Token) : String := "TokenType(" ++ Int.repr token ++ ")"

/-- The token at an index of an input, behind which there are only end markers. -/
def tokenAt (input : Array Token) (index : Nat) : Token := input[index]?.getD Token.endMarker

namespace Occurrence

/-- What an observer is told of the find of an item: nothing if a run begins with it or an epsilon
step leads to it. -/
def noticeOfFind? (input : Array Token) (position : Nat) (item : Item) :
    Provenance → Option Notice
  | .seed => none
  | .epsilon _ => none
  | .predict _ rule => some (.predict position item rule)
  | .complete _ _ rule => some (.complete position item rule)
  | .scan _ tokenIndex => some (.scan position item (tokenAt input tokenIndex))

/-- What an observer is told of an occurrence. -/
def notice? (input : Array Token) : Occurrence → Option Notice
  | ignored _ _ => none
  | found position item why => noticeOfFind? input position item why
  | strayStop _ _ _ => none
  | surveyed _ _ _ => none
  | accepted position item => some (.accept position item)
  | rejected count => some (.reject count)

/-- What a log says of the find of an item. -/
def lineOfFind? (input : Array Token) (position : Nat) (item : Item) :
    Provenance → Option LogLine
  | .seed => none
  | .epsilon _ => none
  | .predict prev _ =>
    some ⟨.trace, "Predicting " ++ item.mention ++ " at " ++ Nat.repr position ++ " from " ++
      prev.mention ++ "."⟩
  | .complete stop _ _ =>
    some ⟨.trace, "Completing " ++ stop.mention ++ " into " ++ item.mention ++ " at " ++
      Nat.repr position ++ "."⟩
  | .scan _ tokenIndex =>
    some ⟨.trace, "Scanned " ++ mentionToken (tokenAt input tokenIndex) ++ " into " ++
      item.mention ++ "."⟩

/-- What a log says of an occurrence. -/
def line? (input : Array Token) : Occurrence → Option LogLine
  | ignored count position =>
    some ⟨.warn, "Ignoring " ++ Nat.repr count ++ " tokens after the end marker at position " ++
      Nat.repr position ++ "."⟩
  | found position item why => lineOfFind? input position item why
  | strayStop stop rule called =>
    some ⟨.warn, "Stop state of rule " ++ mentionRule rule ++ " reached inside a call to " ++
      mentionRule called ++ "; ignoring " ++ stop.mention ++ "."⟩
  | surveyed position items scanned =>
    some ⟨.debug, "Position " ++ Nat.repr position ++ ": " ++ Nat.repr items ++ " items, " ++
      Nat.repr scanned ++ " scanned forward."⟩
  | accepted position _ => some ⟨.debug, "Accepted at position " ++ Nat.repr position ++ "."⟩
  | rejected count => some ⟨.debug, "Rejected input of " ++ Nat.repr count ++ " tokens."⟩

end Occurrence

end TransitionNetworks
