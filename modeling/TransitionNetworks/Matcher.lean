import TransitionNetworks.Token

/-!
# Matchers

A `TokenSet` is a finite set of tokens, kept as its strictly increasing list, so that two sets with
the same tokens are equal. A `Matcher` decides which tokens a terminal transition consumes: those of
a set, those outside a set, or all. Only a set that names the end marker lets it through; the other
two kinds never match it. `Matcher.text` shows a matcher.
-/

namespace TransitionNetworks

/-- A finite set of tokens. -/
structure TokenSet where
  /-- The tokens of the set in increasing order, each once. -/
  elements : List Token
  /-- The list is strictly increasing. -/
  increasing : elements.Pairwise (· < ·)
  deriving DecidableEq

namespace TokenSet

/-- The set without tokens. -/
def empty : TokenSet := ⟨[], List.Pairwise.nil⟩

/-- Put a token into its place in an increasing list, unless it is there already. -/
def insertInto (token : Token) : List Token → List Token
  | [] => [token]
  | first :: rest =>
    if token < first then token :: first :: rest
    else if token = first then first :: rest
    else first :: insertInto token rest

/-- Inserting adds one token to a list. -/
@[simp] theorem mem_insertInto {token other : Token} {tokens : List Token} :
    other ∈ insertInto token tokens ↔ other = token ∨ other ∈ tokens := by
  induction tokens with
  | nil => simp [insertInto]
  | cons first rest ih =>
    unfold insertInto
    split
    · simp
    · split
      · rename_i same
        simp [same]
      · simp only [List.mem_cons, ih]
        exact ⟨fun h => by grind, fun h => by grind⟩

/-- Inserting keeps the list strictly increasing. -/
theorem pairwise_insertInto {token : Token} {tokens : List Token}
    (increasing : tokens.Pairwise (· < ·)) : (insertInto token tokens).Pairwise (· < ·) := by
  induction tokens with
  | nil => simp [insertInto]
  | cons first rest ih =>
    have ⟨below, tail⟩ := List.pairwise_cons.1 increasing
    unfold insertInto
    split
    · rename_i before
      refine List.pairwise_cons.2 ⟨fun other member => ?_, increasing⟩
      rcases List.mem_cons.1 member with same | member
      · exact same ▸ before
      · exact Int.lt_trans before (below other member)
    · split
      · exact increasing
      · rename_i notBefore notSame
        refine List.pairwise_cons.2 ⟨fun other member => ?_, ih tail⟩
        rcases mem_insertInto.1 member with same | member
        · exact same ▸ Int.lt_iff_le_and_ne.2 ⟨Int.not_lt.1 notBefore, Ne.symm notSame⟩
        · exact below other member

/-- Add a token to a set. -/
def insert (token : Token) (set : TokenSet) : TokenSet :=
  ⟨insertInto token set.elements, pairwise_insertInto set.increasing⟩

/-- The set of the tokens of a list. -/
def ofList (tokens : List Token) : TokenSet :=
  tokens.foldl (fun set token => set.insert token) empty

/-- Whether a token belongs to a set. -/
def contains (set : TokenSet) (token : Token) : Bool := set.elements.contains token

/-- The text of a set: its tokens in increasing order between braces. -/
def text (set : TokenSet) : String :=
  "\x7b" ++ ",".intercalate (set.elements.map Token.text) ++ "\x7d"

/-- A set contains the tokens that it lists. -/
@[simp] theorem contains_iff_mem (set : TokenSet) (token : Token) :
    set.contains token = true ↔ token ∈ set.elements := by
  simp [contains]

/-- Inserting adds one token to a set. -/
@[simp] theorem mem_elements_insert {set : TokenSet} {token other : Token} :
    other ∈ (set.insert token).elements ↔ other = token ∨ other ∈ set.elements :=
  mem_insertInto

/-- The set of a list has exactly the tokens of the list. -/
@[simp] theorem mem_elements_ofList {tokens : List Token} {token : Token} :
    token ∈ (ofList tokens).elements ↔ token ∈ tokens := by
  suffices general : ∀ set : TokenSet,
      token ∈ (tokens.foldl (fun set token => set.insert token) set).elements ↔
        token ∈ set.elements ∨ token ∈ tokens by
    simpa [ofList, empty] using general empty
  induction tokens with
  | nil => simp
  | cons first rest ih =>
    intro set
    rw [List.foldl_cons, ih, mem_elements_insert, List.mem_cons]
    grind

end TokenSet

/-- Which tokens a terminal transition consumes. -/
inductive Matcher where
  /-- The tokens of a set, the end marker too if the set names it. -/
  | oneOf (set : TokenSet)
  /-- The tokens outside a set, but never the end marker. -/
  | noneOf (set : TokenSet)
  /-- Every token but the end marker. -/
  | any
  deriving DecidableEq

namespace Matcher

/-- Whether a matcher lets a token through. -/
def accepts : Matcher → Token → Bool
  | oneOf set, token => set.contains token
  | noneOf set, token => !token.isEndMarker && !set.contains token
  | any, token => !token.isEndMarker

/-- The text of a matcher. -/
def text : Matcher → String
  | oneOf set => set.text
  | noneOf set => "~" ++ set.text
  | any => "."

/-- A set lets its tokens through, the end marker too. -/
@[simp] theorem accepts_oneOf (set : TokenSet) (token : Token) :
    (oneOf set).accepts token = true ↔ token ∈ set.elements := by
  simp [accepts]

/-- A complement lets the other tokens through, but not the end marker. -/
@[simp] theorem accepts_noneOf (set : TokenSet) (token : Token) :
    (noneOf set).accepts token = true ↔ token ≠ Token.endMarker ∧ token ∉ set.elements := by
  simp [accepts, ← TokenSet.contains_iff_mem, ← Token.isEndMarker_iff]

/-- The wildcard lets all tokens through but the end marker. -/
@[simp] theorem accepts_any (token : Token) :
    any.accepts token = true ↔ token ≠ Token.endMarker := by
  simp [accepts, ← Token.isEndMarker_iff]

end Matcher

end TransitionNetworks
