import TransitionNetworks.Grammar

/-!
# Writing grammars

A grammar is written from front to back. A step comes behind the steps of an alternative
(`Alternative.term` and the others), an alternative behind those of its rule
(`Production.addAlternative`), and a rule behind those of its grammar (`Grammar.addRule`). Whoever
writes an alternative or a rule is handed an empty one.

Calls go by name, so a rule may be called in front of the place where it is written.
-/

namespace TransitionNetworks

universe u

variable {ρ : Type u}

namespace Alternative

/-- Then consume any one of the given tokens. -/
def terms (tokens : List Token) (alternative : Alternative ρ) : Alternative ρ :=
  alternative ++ [.consume (.oneOf (.ofList tokens))]

/-- Then consume exactly one token. -/
def term (token : Token) (alternative : Alternative ρ) : Alternative ρ := alternative.terms [token]

/-- Then consume any token but the given ones and the end marker. -/
def notTerms (tokens : List Token) (alternative : Alternative ρ) : Alternative ρ :=
  alternative ++ [.consume (.noneOf (.ofList tokens))]

/-- Then consume any token but the end marker. -/
def wildcard (alternative : Alternative ρ) : Alternative ρ := alternative ++ [.consume .any]

/-- Then go through a rule. -/
def call (rule : ρ) (alternative : Alternative ρ) : Alternative ρ := alternative ++ [.call rule]

/-- Then take a step that consumes nothing. -/
def epsilon (kind : EpsilonKind) (alternative : Alternative ρ) : Alternative ρ :=
  alternative ++ [.epsilon kind]

end Alternative

namespace Production

/-- A rule without a way through it. -/
def named (name : String) : Production ρ := ⟨name, []⟩

/-- Write one more alternative. -/
def addAlternative (write : Alternative ρ → Alternative ρ) (production : Production ρ) :
    Production ρ :=
  { production with alternatives := production.alternatives ++ [write []] }

/-- One more alternative, without a step. -/
def addEmptyAlternative (production : Production ρ) : Production ρ :=
  { production with alternatives := production.alternatives ++ [[]] }

/-- A rule has the alternative that is written behind its own. -/
@[simp] theorem mem_alternatives_addAlternative {write : Alternative ρ → Alternative ρ}
    {production : Production ρ} {alternative : Alternative ρ} :
    alternative ∈ (production.addAlternative write).alternatives ↔
      alternative ∈ production.alternatives ∨ alternative = write [] := by
  simp [addAlternative]

end Production

namespace Grammar

/-- The grammar without rules. -/
def empty : Grammar := ⟨[]⟩

/-- Write one more rule. -/
def addRule (name : String) (write : Production String → Production String) (grammar : Grammar) :
    Grammar :=
  { productions := grammar.productions ++ [write (.named name)] }

end Grammar

end TransitionNetworks
