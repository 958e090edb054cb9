import TransitionNetworks.Derivation
import TransitionNetworks.Recognition.Sweep

/-!
# Recognition

A run of a network on a list of tokens, from a start rule. Its input are the tokens in front of the
first end marker, and an end marker. It begins in the start state of the rule outside all calls, and
it accepts if it finds the stop state of the rule outside all calls, either behind the end marker
or, with the end marker not consumed, in front of it.

`Network.recognition` gives the finished run, which holds everything that was found: the chart, the
statistics, the notices and the log, and with the provenance a derivation.
-/

namespace TransitionNetworks

/-- A finished run. -/
structure Recognition where
  /-- The network. -/
  network : Network
  /-- The rule from which the run began. -/
  startRule : Nat
  /-- The tokens in front of the first end marker, and an end marker. -/
  input : Array Token
  /-- What the run found. -/
  findings : Findings
  /-- Where the stop state of the start rule was found outside all calls. -/
  accepting : Option Place

/-- How much a run found. -/
structure RunStatistics where
  /-- The positions of the chart. -/
  positions : Nat
  /-- The items at all positions. -/
  items : Nat
  /-- The nodes of the graph of stacks. -/
  stackNodes : Nat
  /-- The items whose provenance is known. -/
  provenances : Nat
  deriving DecidableEq

/-- Why a run cannot begin. -/
structure MissingStartRule where
  /-- The rule asked for. -/
  rule : Nat
  /-- How many rules there are. -/
  ruleCount : Nat
  deriving DecidableEq

/-- The message of the fault. -/
def MissingStartRule.message (fault : MissingStartRule) : String :=
  "start rule " ++ mentionRule fault.rule ++ " does not exist; the automaton has " ++
    Nat.repr fault.ruleCount ++ " rules"

namespace Findings

/-- Note the tokens that are left aside behind an end marker at position `last`. -/
def noteIgnored (tokens : List Token) (last : Nat) (findings : Findings) : Findings :=
  let count := tokens.length - last - 1
  if count = 0 then findings else findings.note (.ignored count last)

/-- Where an item was found, of the position behind the end marker at `last` and the one in front of
it, the former before the latter. -/
def acceptance? (accept : Item) (last : Nat) (findings : Findings) : Option Place :=
  ([last + 1, last].find? fun position => findings.chart.contains position accept).map
    fun position => ⟨position, accept⟩

/-- Note how the run ended on an input of `last` tokens. -/
def noteVerdict (accepting : Option Place) (last : Nat) (findings : Findings) : Findings :=
  match accepting with
  | some place => findings.note (.accepted place.position place.item)
  | none => findings.note (.rejected last)

end Findings

namespace Network

/-- The run from a rule. -/
def recognitionFrom (network : Network) (startRule : Nat) (rule : Rule) (tokens : List Token) :
    Recognition :=
  let consumed := beforeEndMarker tokens
  let last := consumed.length
  let input := consumed ++ [Token.endMarker]
  let findings := (Findings.initial.noteIgnored tokens last).discover 0
    ⟨rule.start, 0, emptyStack⟩ .seed
  let findings := (findings.sweep network 0 input).settle network last
  let accepting := findings.acceptance? ⟨rule.stop, 0, emptyStack⟩ last
  { network
    startRule
    input := input.toArray
    findings := findings.noteVerdict accepting last
    accepting }

/-- The run from the rule with an id, if there is one. -/
def recognition (network : Network) (startRule : Nat) (tokens : List Token) :
    Except MissingStartRule Recognition :=
  match network.rule? startRule with
  | none => .error ⟨startRule, network.ruleCount⟩
  | some rule => .ok (network.recognitionFrom startRule rule tokens)

end Network

namespace Recognition

/-- Whether the input is accepted. -/
def isAccepted (recognition : Recognition) : Bool := recognition.accepting.isSome

/-- The position of the end marker. -/
def endPosition (recognition : Recognition) : Nat := recognition.input.size - 1

/-- The items found at each position. -/
def chart (recognition : Recognition) : Chart := recognition.findings.chart

/-- How much was found. -/
def statistics (recognition : Recognition) : RunStatistics where
  positions := recognition.findings.chart.size
  items := recognition.findings.chart.itemCount
  stackNodes := recognition.findings.stackGraph.size
  provenances := recognition.findings.provenance.size

/-- What an observer is told, in order. -/
def notices (recognition : Recognition) : List Notice :=
  recognition.findings.history.toList.filterMap (Occurrence.notice? recognition.input)

/-- The lines of the log, in order. -/
def log (recognition : Recognition) : List LogLine :=
  recognition.findings.history.toList.filterMap (Occurrence.line? recognition.input)

/-- A derivation of the input, if it is accepted. -/
def derivation (recognition : Recognition) : Except DerivationFault (Option (List Event)) :=
  match recognition.accepting with
  | none => .ok none
  | some place => (recognition.findings.provenance.derivation place).map some

end Recognition

end TransitionNetworks
