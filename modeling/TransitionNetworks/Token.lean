/-!
# Tokens

A token is an integer code. The code `-1` is set apart as the end marker, which stands behind the
last token of an input. `Token.text` is how a token is shown in text: by its code, and the end
marker by a name of its own.
-/

namespace TransitionNetworks

/-- A token, given by its code. -/
abbrev Token : Type := Int

namespace Token

/-- The token that stands behind the last token of an input. -/
def endMarker : Token := -1

/-- Whether a token is the end marker. -/
def isEndMarker (token : Token) : Bool := token == endMarker

/-- The text of a token: its code in decimal, or the name of the end marker. -/
def text (token : Token) : String :=
  if isEndMarker token then "<EOF>" else Int.repr token

/-- The end marker is recognized, and nothing else. -/
@[simp] theorem isEndMarker_iff (token : Token) : isEndMarker token = true ↔ token = endMarker := by
  simp [isEndMarker]

@[simp] theorem text_endMarker : text endMarker = "<EOF>" := rfl

end Token

/-- The tokens in front of the first end marker, or all of them if there is none. -/
def beforeEndMarker (tokens : List Token) : List Token :=
  tokens.takeWhile fun token => !token.isEndMarker

@[simp] theorem beforeEndMarker_nil : beforeEndMarker [] = [] := rfl

/-- The tokens in front of the first end marker end where it comes. -/
@[simp] theorem beforeEndMarker_cons (token : Token) (rest : List Token) :
    beforeEndMarker (token :: rest) =
      if token.isEndMarker then [] else token :: beforeEndMarker rest := by
  cases h : token.isEndMarker <;> simp [beforeEndMarker, h]

/-- No end marker stands in front of the first end marker. -/
theorem endMarker_not_mem_beforeEndMarker (tokens : List Token) :
    Token.endMarker ∉ beforeEndMarker tokens := by
  induction tokens with
  | nil => simp
  | cons token rest ih =>
    rw [beforeEndMarker_cons]
    split
    · simp
    · rename_i inner
      simp only [List.mem_cons, not_or]
      exact ⟨fun same => inner (by simp [← same]), ih⟩

end TransitionNetworks
