import TransitionNetworks.Parsing

/-!
# Observers and sessions

A parser is a network with an observer, which is told the notices of every run and keeps what it
likes in its memory. The results do not depend on the observer, and a run that cannot begin tells it
nothing. A session is a list of requests to one parser whose observer records all notices; the
recorder can be replaced by a new one on the way.
-/

namespace TransitionNetworks

universe u

/-- A network with an observer of its runs. -/
structure Parser (σ : Type u) where
  /-- The network. -/
  network : Network
  /-- What the observer makes of a notice. -/
  observe : σ → Notice → σ
  /-- What the observer remembers. -/
  memory : σ

namespace Parser

variable {σ : Type u}

/-- Tell the observer notices. -/
def tell (notices : List Notice) (parser : Parser σ) : Parser σ :=
  { parser with memory := notices.foldl parser.observe parser.memory }

/-- Run on tokens from a start rule. -/
def run (startRule : Nat) (tokens : List Token) (parser : Parser σ) :
    Except MissingStartRule Recognition × Parser σ :=
  match parser.network.recognition startRule tokens with
  | .error fault => (.error fault, parser)
  | .ok recognition => (.ok recognition, parser.tell recognition.notices)

/-- Whether the network accepts tokens from a start rule. -/
def recognize (startRule : Nat) (tokens : List Token) (parser : Parser σ) :
    Except MissingStartRule Bool × Parser σ :=
  let (result, parser) := parser.run startRule tokens
  (result.map Recognition.isAccepted, parser)

/-- The tree of tokens from a start rule, if the network accepts them. -/
def parse (startRule : Nat) (tokens : List Token) (parser : Parser σ) :
    Except ParseFault (Option ParseTree) × Parser σ :=
  match parser.run startRule tokens with
  | (.error fault, parser) => (.error (.missingStartRule fault), parser)
  | (.ok recognition, parser) => (recognition.tree, parser)

end Parser

/-- Whether a notice says how a run ended. -/
def Notice.isVerdict : Notice → Bool
  | accept .. => true
  | reject _ => true
  | predict .. => false
  | complete .. => false
  | scan .. => false

/-- A parser whose observer records all notices. -/
def Parser.recording (network : Network) : Parser (Array Notice) where
  network
  observe := Array.push
  memory := #[]

/-- A parser whose observer records how the runs ended. -/
def Parser.judging (network : Network) : Parser (Array Notice) where
  network
  observe verdicts notice := if notice.isVerdict then verdicts.push notice else verdicts
  memory := #[]

/-- What can be asked of a parser in a session. -/
inductive Request where
  /-- A finished run. -/
  | run (startRule : Nat) (tokens : List Token)
  /-- Whether tokens are accepted. -/
  | recognize (startRule : Nat) (tokens : List Token)
  /-- The tree of tokens. -/
  | parse (startRule : Nat) (tokens : List Token)
  /-- A new recorder. -/
  | replaceObserver

/-- The answer to a request. -/
inductive Reply where
  /-- The run. -/
  | ran (recognition : Recognition)
  /-- Whether the tokens are accepted. -/
  | recognized (accepted : Bool)
  /-- The tree, if the tokens are accepted. -/
  | parsed (tree : Option ParseTree)
  /-- The request could not be met. -/
  | failed (fault : ParseFault)
  /-- The recorder is new. -/
  | replaced

/-- The answer to a request, with what the recorder was told on the way. -/
structure Response where
  /-- The answer. -/
  reply : Reply
  /-- The notices of this request. -/
  notices : List Notice
  /-- How many notices the recorder holds. -/
  total : Nat

/-- The reply to a run, given how it is answered if it could begin. -/
def Reply.ofRun {α : Type u} (answer : α → Reply) : Except MissingStartRule α → Reply
  | .error fault => failed (.missingStartRule fault)
  | .ok value => answer value

/-- The reply to a parse. -/
def Reply.ofParse : Except ParseFault (Option ParseTree) → Reply
  | .error fault => failed fault
  | .ok tree => parsed tree

namespace Parser

/-- Meet a request. -/
def reply (request : Request) (parser : Parser (Array Notice)) :
    Reply × Parser (Array Notice) :=
  match request with
  | .run startRule tokens =>
    let (result, parser) := parser.run startRule tokens
    (Reply.ofRun .ran result, parser)
  | .recognize startRule tokens =>
    let (result, parser) := parser.recognize startRule tokens
    (Reply.ofRun .recognized result, parser)
  | .parse startRule tokens =>
    let (result, parser) := parser.parse startRule tokens
    (Reply.ofParse result, parser)
  | .replaceObserver => (.replaced, recording parser.network)

/-- Meet a request and say what the recorder was told on the way. -/
def respond (request : Request) (parser : Parser (Array Notice)) :
    Response × Parser (Array Notice) :=
  let before := parser.memory.size
  let (reply, parser) := parser.reply request
  ({ reply
     notices := parser.memory.toList.drop before
     total := parser.memory.size }, parser)

/-- Meet requests one after the other. -/
def respondAll : List Request → Parser (Array Notice) → List Response × Parser (Array Notice)
  | [], parser => ([], parser)
  | request :: rest, parser =>
    let (response, parser) := parser.respond request
    let (responses, parser) := respondAll rest parser
    (response :: responses, parser)

end Parser

end TransitionNetworks
