/-!
# Escaped text

A label stands between double quotes, so what would end it or is not plain is escaped: tab, return,
new line, both quotes and the backslash by a backslash and a letter or themselves, printable ASCII
not at all, and every other character by its code point in hexadecimal.
-/

namespace TransitionNetworks.Escaped

/-- The digits of a code point in hexadecimal, without leading zeros. -/
def hexadecimal (code : Nat) : List Char := Nat.toDigits 16 code

/-- The escaped form of a character. -/
def encodeChar (c : Char) : List Char :=
  if c = '\t' then ['\\', 't']
  else if c = '\r' then ['\\', 'r']
  else if c = '\n' then ['\\', 'n']
  else if c = '\'' ∨ c = '"' ∨ c = '\\' then ['\\', c]
  else if 0x20 ≤ c.toNat ∧ c.toNat ≤ 0x7e then [c]
  else ['\\', 'u', '\x7b'] ++ hexadecimal c.toNat ++ ['\x7d']

/-- The escaped form of a text, character by character. -/
def encode (text : String) : String := String.ofList (text.toList.flatMap encodeChar)

@[simp] theorem encode_empty : encode "" = "" := rfl

/-- Escaping goes through a text piece by piece. -/
theorem encode_append (first second : String) :
    encode (first ++ second) = encode first ++ encode second := by
  simp [encode, String.toList_append, List.flatMap_append, String.ofList_append]

end TransitionNetworks.Escaped
