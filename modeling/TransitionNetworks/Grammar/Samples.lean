import TransitionNetworks.Grammar.Builder

/-!
# Sample grammars

Small grammars that together show left and right recursion, nullable rules, nesting, every sort of
matcher and an explicit end marker, over a fixed vocabulary of tokens.
-/

namespace TransitionNetworks.Samples

/-- The digit one. -/
def one : Token := 1

/-- The digit two. -/
def two : Token := 2

/-- The digit three. -/
def three : Token := 3

/-- The digit four. -/
def four : Token := 4

/-- The sign of addition. -/
def plus : Token := 10

/-- The sign of multiplication. -/
def times : Token := 11

/-- The letter a. -/
def letterA : Token := 20

/-- The letter b. -/
def letterB : Token := 21

/-- The letter x. -/
def letterX : Token := 22

/-- The letter y. -/
def letterY : Token := 23

/-- An opening parenthesis. -/
def openParen : Token := 30

/-- A closing parenthesis. -/
def closeParen : Token := 31

/-- An atom. -/
def atom : Token := 32

/-- Sums of products of digits, both operators associating to the left. -/
def arithmetic : Grammar :=
  Grammar.empty
    |>.addRule "S" (fun rule => rule
      |>.addAlternative (·.call "S" |>.term plus |>.call "M")
      |>.addAlternative (·.call "M"))
    |>.addRule "M" (fun rule => rule
      |>.addAlternative (·.call "M" |>.term times |>.call "T")
      |>.addAlternative (·.call "T"))
    |>.addRule "T" (fun rule =>
      [one, two, three, four].foldl (fun rule digit => rule.addAlternative (·.term digit)) rule)

/-- Two rules that begin with each other. -/
def mutualLeftRecursion : Grammar :=
  Grammar.empty
    |>.addRule "A" (fun rule => rule
      |>.addAlternative (·.call "B" |>.term letterX)
      |>.addAlternative (·.term letterA))
    |>.addRule "B" (fun rule => rule
      |>.addAlternative (·.call "A" |>.term letterY)
      |>.addAlternative (·.term letterB))

/-- Any number of the letter a. -/
def nullable : Grammar :=
  Grammar.empty.addRule "opt" fun rule => rule
    |>.addAlternative (·.term letterA |>.call "opt")
    |>.addEmptyAlternative

/-- The letter a at least once. -/
def nonNullable : Grammar :=
  Grammar.empty.addRule "some" fun rule => rule
    |>.addAlternative (·.term letterA)
    |>.addAlternative (·.term letterA |>.call "some")

/-- An atom inside any number of parentheses. -/
def nestedParens : Grammar :=
  Grammar.empty.addRule "E" fun rule => rule
    |>.addAlternative (·.term openParen |>.call "E" |>.term closeParen)
    |>.addAlternative (·.term atom)

/-- A list of items up to and including the end marker: an item is a token other than a parenthesis,
or an opening parenthesis and any one token. -/
def file : Grammar :=
  Grammar.empty
    |>.addRule "file" (fun rule => rule.addAlternative (·.call "list" |>.term Token.endMarker))
    |>.addRule "list" (fun rule => rule
      |>.addAlternative (·.call "item" |>.call "list")
      |>.addEmptyAlternative)
    |>.addRule "item" (fun rule => rule
      |>.addAlternative
        (·.epsilon .predicate |>.notTerms [openParen, closeParen] |>.epsilon .action)
      |>.addAlternative (·.term openParen |>.wildcard))

end TransitionNetworks.Samples
