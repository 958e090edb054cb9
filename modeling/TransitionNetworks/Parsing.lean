import TransitionNetworks.Recognition
import TransitionNetworks.Tree.Assembly

/-!
# Parsing

Parsing a list of tokens is recognizing it and, if it is accepted, assembling the tree of the
derivation that was found. The tree is that of the input, so its root is the start rule.
-/

namespace TransitionNetworks

/-- Why a list of tokens cannot be parsed, whether or not the network accepts it. -/
inductive ParseFault where
  /-- There is no such start rule. -/
  | missingStartRule (fault : MissingStartRule)
  /-- No derivation can be read off. -/
  | derivation (fault : DerivationFault)
  /-- The derivation has no tree. -/
  | tree (fault : TreeFault)
  deriving DecidableEq

/-- The message of a fault. -/
def ParseFault.message : ParseFault → String
  | missingStartRule fault => fault.message
  | derivation fault => fault.message
  | tree fault => fault.message

/-- The tree of the derivation that a run found, if it accepts. -/
def Recognition.tree (recognition : Recognition) : Except ParseFault (Option ParseTree) :=
  match recognition.derivation with
  | .error fault => .error (.derivation fault)
  | .ok none => .ok none
  | .ok (some events) =>
    match ParseTree.assemble recognition.network recognition.input recognition.startRule events with
    | .error fault => .error (.tree fault)
    | .ok tree => .ok (some tree)

namespace Network

/-- Whether a network accepts tokens from a start rule. -/
def recognize (network : Network) (startRule : Nat) (tokens : List Token) :
    Except MissingStartRule Bool :=
  (network.recognition startRule tokens).map Recognition.isAccepted

/-- The verdict is that of the run. -/
theorem recognize_of_recognition {network : Network} {startRule : Nat} {tokens : List Token}
    {recognition : Recognition} (ran : network.recognition startRule tokens = .ok recognition) :
    network.recognize startRule tokens = .ok recognition.isAccepted := by
  rw [recognize, ran]
  rfl

/-- The tree of tokens from a start rule, if the network accepts them. -/
def parse (network : Network) (startRule : Nat) (tokens : List Token) :
    Except ParseFault (Option ParseTree) :=
  match network.recognition startRule tokens with
  | .error fault => .error (.missingStartRule fault)
  | .ok recognition => recognition.tree

end Network

end TransitionNetworks
