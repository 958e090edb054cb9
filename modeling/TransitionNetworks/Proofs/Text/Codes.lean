import TransitionNetworks.Matcher
import TransitionNetworks.Text.Escaped
import Mathlib.Data.Nat.Digits.Lemmas

/-! # Codes that can be read back

A code is free of prefixes on a domain (`PrefixFreeOn`) if the word of an element tells where it
ends, whatever is written behind it. Then the words of a list of elements can be read back up to
something with which no word begins (`PrefixFreeOn.flatMap_append_inj`), as can a run of letters up
to a letter of another sort (`run_append_inj`). So it is with escaped text up to a quote
(`Escaped.encode_append_inj`), and with numbers up to what is no digit. A matcher is known by its
text (`Matcher.text_injective`). -/

namespace TransitionNetworks

universe u v

section Codes

variable {α : Type u} {β : Type v} {domain : α → Prop} {code : α → List β}

/-- **Freedom of prefixes.** What is written with the word of an element in front tells the element
and what stands behind the word. -/
def PrefixFreeOn (domain : α → Prop) (code : α → List β) : Prop :=
  ∀ ⦃x y : α⦄, domain x → domain y → ∀ ⦃rest more : List β⦄,
    code x ++ rest = code y ++ more → x = y ∧ rest = more

/-- **The words of a list can be read back** up to something with which no word begins. -/
theorem PrefixFreeOn.flatMap_append_inj (free : PrefixFreeOn domain code) {xs ys : List α}
    {rest more : List β} (inside : ∀ x ∈ xs, domain x) (inside' : ∀ y ∈ ys, domain y)
    (ends : ∀ y, domain y → ¬ code y <+: rest) (ends' : ∀ x, domain x → ¬ code x <+: more)
    (same : xs.flatMap code ++ rest = ys.flatMap code ++ more) : xs = ys ∧ rest = more := by
  induction xs generalizing ys with
  | nil =>
    cases ys with
    | nil => exact ⟨rfl, same⟩
    | cons y ys =>
      rw [List.flatMap_cons, List.append_assoc] at same
      exact absurd ⟨_, same.symm⟩ (ends y (inside' y List.mem_cons_self))
  | cons x xs ih =>
    rw [List.flatMap_cons, List.append_assoc] at same
    cases ys with
    | nil => exact absurd ⟨_, same⟩ (ends' x (inside x List.mem_cons_self))
    | cons y ys =>
      rw [List.flatMap_cons, List.append_assoc] at same
      obtain ⟨rfl, others⟩ :=
        free (inside x List.mem_cons_self) (inside' y List.mem_cons_self) same
      obtain ⟨rfl, behind⟩ := ih (fun z member => inside z (List.mem_cons_of_mem _ member))
        (fun z member => inside' z (List.mem_cons_of_mem _ member)) others
      exact ⟨rfl, behind⟩

/-- The words of a list tell the list, if no word is empty. -/
theorem PrefixFreeOn.flatMap_inj (free : PrefixFreeOn domain code)
    (nonempty : ∀ x, domain x → code x ≠ []) {xs ys : List α} (inside : ∀ x ∈ xs, domain x)
    (inside' : ∀ y ∈ ys, domain y) (same : xs.flatMap code = ys.flatMap code) : xs = ys := by
  have apart : ∀ x, domain x → ¬ code x <+: [] := fun x known begins =>
    nonempty x known (List.prefix_nil.1 begins)
  exact (free.flatMap_append_inj inside inside' apart apart (congrArg (· ++ []) same)).1

/-- **A run of letters can be read back** up to a letter of another sort. -/
theorem run_append_inj (sort : β → Prop) {run other rest more : List β}
    (inside : ∀ letter ∈ run, sort letter) (inside' : ∀ letter ∈ other, sort letter)
    (ends : ∀ letter ∈ rest.head?, ¬ sort letter) (ends' : ∀ letter ∈ more.head?, ¬ sort letter)
    (same : run ++ rest = other ++ more) : run = other ∧ rest = more := by
  have free : PrefixFreeOn sort fun letter => [letter] := by
    intro x y _ _ rest more same
    exact List.cons.inj same
  have apart : ∀ {behind : List β}, (∀ letter ∈ behind.head?, ¬ sort letter) →
      ∀ letter, sort letter → ¬ [letter] <+: behind := by
    rintro behind outside letter isInside ⟨others, rfl⟩
    exact outside letter rfl isInside
  rw [← List.flatMap_singleton' run, ← List.flatMap_singleton' other] at same
  exact free.flatMap_append_inj inside inside' (apart ends) (apart ends') same

end Codes

/-- The letters of three texts one behind the other. -/
theorem toList_append_append (first second third : String) :
    (first ++ second ++ third).toList = first.toList ++ (second.toList ++ third.toList) := by
  rw [String.toList_append, String.toList_append, List.append_assoc]

/-! ## Numbers -/

/-- Digits below sixteen are written differently. -/
theorem digitChar_injOn {digit other : Nat} (bound : digit < 16) (bound' : other < 16)
    (same : digit.digitChar = other.digitChar) : digit = other := by
  have decided : ∀ digit < 16, ∀ other < 16,
      Nat.digitChar digit = Nat.digitChar other → digit = other := by decide
  exact decided digit bound other bound' same

/-- What holds of the digits of a base, holds of the letters of a number. -/
theorem forall_mem_toDigits {base : Nat} {holds : Char → Prop} (big : 1 < base)
    (digits : ∀ digit < base, holds digit.digitChar) (number : Nat) :
    ∀ letter ∈ Nat.toDigits base number, holds letter := by
  induction number using Nat.strongRecOn with
  | ind number ih =>
    by_cases small : number < base
    · rw [Nat.toDigits_of_lt_base small]
      exact List.forall_mem_singleton.2 (digits number small)
    · have front := ih (number / base) (Nat.div_lt_self (by omega) big)
      rw [Nat.toDigits_of_base_le big (Nat.not_lt.1 small)]
      exact List.forall_mem_append.2
        ⟨front, List.forall_mem_singleton.2 (digits _ (Nat.mod_lt _ (by omega)))⟩

/-- **Numbers are told by their digits,** in a base for which there are letters. -/
theorem toDigits_injective {base : Nat} (big : 1 < base) (small : base ≤ 16) :
    Function.Injective (Nat.toDigits base) := by
  intro number other same
  induction number using Nat.strongRecOn generalizing other with
  | ind number ih =>
    have single : ∀ number, (Nat.toDigits base number).length ≤ 1 ↔ number < base := by
      intro number
      rw [Nat.length_toDigits_le_iff big Nat.one_pos, Nat.pow_one]
    have both : number < base ↔ other < base := by rw [← single, ← single, same]
    by_cases less : number < base
    · rw [Nat.toDigits_of_lt_base less, Nat.toDigits_of_lt_base (both.1 less)] at same
      exact digitChar_injOn (Nat.lt_of_lt_of_le less small)
        (Nat.lt_of_lt_of_le (both.1 less) small) (List.singleton_inj.1 same)
    · rw [Nat.toDigits_of_base_le big (Nat.not_lt.1 less),
        Nat.toDigits_of_base_le big (Nat.not_lt.1 (mt both.2 less))] at same
      obtain ⟨front, last⟩ := List.append_inj' same rfl
      have quotient := ih (number / base) (Nat.div_lt_self (by omega) big) front
      have below : ∀ number, number % base < 16 :=
        fun number => Nat.lt_of_lt_of_le (Nat.mod_lt number (by omega)) small
      have remainder := digitChar_injOn (below number) (below other) (List.singleton_inj.1 last)
      calc number = base * (number / base) + number % base := (Nat.div_add_mod _ _).symm
        _ = base * (other / base) + other % base := by rw [quotient, remainder]
        _ = other := Nat.div_add_mod _ _

/-- The letters of a number are digits. -/
theorem isDigit_of_mem_repr {number : Nat} {letter : Char}
    (member : letter ∈ (Nat.repr number).toList) : letter.isDigit = true := by
  rw [Nat.repr_eq_ofList_toDigits, String.toList_ofList] at member
  exact Nat.isDigit_of_mem_toDigits (by decide) (Nat.le_refl 10) member

/-- **Natural numbers are told by their texts.** -/
theorem repr_injective : Function.Injective Nat.repr := by
  intro number other same
  rw [Nat.repr_eq_ofList_toDigits, Nat.repr_eq_ofList_toDigits] at same
  exact toDigits_injective (by decide) (by decide) (String.ofList_injective same)

/-- **Integers are told by their texts,** of which those of negative ones begin with a sign. -/
theorem intRepr_injective : Function.Injective Int.repr := by
  have noSign : ∀ (number : Nat) (text : String), number.repr ≠ "-" ++ text := by
    intro number text same
    have sign : '-' ∈ (Nat.repr number).toList := by
      rw [same, String.toList_append]
      exact List.mem_cons_self
    exact absurd (isDigit_of_mem_repr sign) (by decide)
  intro number other same
  rw [Int.repr_eq_if, Int.repr_eq_if] at same
  split at same
  · split at same
    · have natural := repr_injective same
      omega
    · exact absurd same (noSign _ _)
  · split at same
    · exact absurd same.symm (noSign _ _)
    · have letters := congrArg String.toList same
      rw [String.toList_append, String.toList_append] at letters
      have natural := repr_injective (String.toList_injective (List.append_cancel_left letters))
      omega

/-! ## Escaped text -/

namespace Escaped

/-- The character that a letter behind a backslash stands for. -/
def ofMark (mark : Char) : Char :=
  if mark = 't' then '\t' else if mark = 'r' then '\r' else if mark = 'n' then '\n' else mark

/-- **The forms of an escaped character.** -/
inductive Form : Char → List Char → Prop
  /-- As it is. -/
  | plain {c : Char} (noEscape : c ≠ '\\') (noQuote : c ≠ '"') : Form c [c]
  /-- By a letter behind a backslash. -/
  | marked {mark : Char} (noCode : mark ≠ 'u') : Form (ofMark mark) ['\\', mark]
  /-- By its code point. -/
  | coded {c : Char} :
      Form c (['\\', 'u', '\x7b'] ++ hexadecimal c.toNat ++ ['\x7d'])

/-- An escaped character has one of the forms. -/
theorem form_encodeChar (c : Char) : Form c (encodeChar c) := by
  unfold encodeChar
  split
  · rename_i tab
    exact tab ▸ .marked (by decide : 't' ≠ 'u')
  · split
    · rename_i return'
      exact return' ▸ .marked (by decide : 'r' ≠ 'u')
    · split
      · rename_i newLine
        exact newLine ▸ .marked (by decide : 'n' ≠ 'u')
      · split
        · rename_i itself
          rcases itself with rfl | rfl | rfl
          · exact .marked (by decide : '\'' ≠ 'u')
          · exact .marked (by decide : '"' ≠ 'u')
          · exact .marked (by decide : '\\' ≠ 'u')
        · rename_i others
          split
          · exact .plain (fun same => others (Or.inr (Or.inr same)))
              (fun same => others (Or.inr (Or.inl same)))
          · exact .coded

/-- The digits of a code point end in front of the brace behind them. -/
theorem hexadecimal_append_inj {code other : Nat} {rest more : List Char}
    (same : hexadecimal code ++ '\x7d' :: rest = hexadecimal other ++ '\x7d' :: more) :
    code = other ∧ rest = more := by
  have noBrace : ∀ code, ∀ letter ∈ hexadecimal code, letter ≠ '\x7d' :=
    forall_mem_toDigits (by decide) (by decide)
  obtain ⟨digits, behind⟩ :=
    run_append_inj _ (noBrace code) (noBrace other) (by simp) (by simp) same
  exact ⟨toDigits_injective (by decide) (by decide) digits, (List.cons.inj behind).2⟩

/-- **The escaped forms are free of prefixes.** -/
theorem prefixFreeOn_encodeChar : PrefixFreeOn (fun _ => True) encodeChar := by
  intro c d _ _ rest more
  have form := form_encodeChar c
  have form' := form_encodeChar d
  generalize encodeChar c = word at form
  generalize encodeChar d = word' at form'
  intro same
  cases form with
  | plain noEscape noQuote =>
    cases form' with
    | plain => exact List.cons.inj same
    | marked => exact absurd (List.cons.inj same).1 noEscape
    | coded => exact absurd (List.cons.inj same).1 noEscape
  | @marked mark noCode =>
    cases form' with
    | plain noEscape => exact absurd (List.cons.inj same).1.symm noEscape
    | marked =>
      obtain ⟨rfl, behind⟩ := List.cons.inj (List.cons.inj same).2
      exact ⟨rfl, behind⟩
    | coded => exact absurd (List.cons.inj (List.cons.inj same).2).1 noCode
  | coded =>
    cases form' with
    | plain noEscape => exact absurd (List.cons.inj same).1.symm noEscape
    | marked noCode => exact absurd (List.cons.inj (List.cons.inj same).2).1.symm noCode
    | coded =>
      simp only [List.append_assoc, List.cons_append, List.nil_append, List.cons.injEq,
        true_and] at same
      obtain ⟨code, behind⟩ := hexadecimal_append_inj same
      exact ⟨Char.toNat_inj.1 code, behind⟩

/-- **Escaped text ends in front of the quote behind it.** -/
theorem encode_append_inj {text other : String} {rest more : List Char}
    (same : (encode text).toList ++ '"' :: rest = (encode other).toList ++ '"' :: more) :
    text = other ∧ rest = more := by
  have apart : ∀ (behind : List Char) (c : Char), True → ¬ encodeChar c <+: '"' :: behind := by
    intro behind c _ begins
    have form := form_encodeChar c
    generalize encodeChar c = word at form begins
    cases form with
    | plain noEscape noQuote => exact noQuote (List.cons_prefix_cons.1 begins).1
    | marked => exact absurd (List.cons_prefix_cons.1 begins).1 (by decide)
    | coded => exact absurd (List.cons_prefix_cons.1 begins).1 (by decide)
  rw [encode, encode, String.toList_ofList, String.toList_ofList] at same
  obtain ⟨letters, behind⟩ := prefixFreeOn_encodeChar.flatMap_append_inj
    (fun _ _ => trivial) (fun _ _ => trivial) (apart rest) (apart more) same
  exact ⟨String.toList_injective letters, (List.cons.inj behind).2⟩

end Escaped

/-! ## Matchers -/

/-- The text of a token is the name of the end marker or has digits and a sign only. -/
theorem Token.mem_text {token : Token} {letter : Char} (member : letter ∈ token.text.toList) :
    letter ∈ "<EOF>".toList ∨ letter = '-' ∨ letter.isDigit = true := by
  unfold Token.text at member
  split at member
  · exact Or.inl member
  · rw [Int.repr_eq_if] at member
    split at member
    · exact Or.inr (Or.inr (isDigit_of_mem_repr member))
    · rw [String.toList_append, List.mem_append] at member
      rcases member with sign | digit
      · exact Or.inr (Or.inl (List.mem_singleton.1 sign))
      · exact Or.inr (Or.inr (isDigit_of_mem_repr digit))

/-- **A token is told by its text.** -/
theorem Token.text_injective : Function.Injective Token.text := by
  have noName : ∀ token : Token, Int.repr token ≠ "<EOF>" := by
    intro token same
    have first : '<' ∈ (Int.repr token).toList := same ▸ List.mem_cons_self
    rw [Int.repr_eq_if] at first
    split at first
    · exact absurd (isDigit_of_mem_repr first) (by decide)
    · rw [String.toList_append, List.mem_append] at first
      rcases first with sign | digit
      · exact absurd (List.mem_singleton.1 sign) (by decide)
      · exact absurd (isDigit_of_mem_repr digit) (by decide)
  intro token other same
  unfold Token.text at same
  split at same
  · rename_i isEnd
    split at same
    · rename_i isEnd'
      exact ((Token.isEndMarker_iff token).1 isEnd).trans
        ((Token.isEndMarker_iff other).1 isEnd').symm
    · exact absurd same.symm (noName other)
  · split at same
    · exact absurd same (noName token)
    · exact intRepr_injective same

/-- No token is written without a letter. -/
theorem Token.text_ne_empty (token : Token) : token.text ≠ "" := by
  unfold Token.text
  split
  · decide
  · rw [Int.repr_eq_if]
    split
    · exact Nat.repr_ne_empty
    · intro same
      simp at same

/-- The tokens of a list are read back by splitting it at the commas. -/
theorem Token.splitOn_intercalate {tokens : List Token} (some' : tokens ≠ []) :
    (",".intercalate (tokens.map Token.text)).toList.splitOn ',' =
      tokens.map fun token => token.text.toList := by
  rw [String.toList_intercalate, List.map_map]
  refine List.splitOn_intercalate ',' ?_ (by simpa using some')
  rintro word member comma
  obtain ⟨token, -, rfl⟩ := List.mem_map.1 member
  rcases Token.mem_text comma with name | sign | digit
  · exact absurd name (by decide)
  · exact absurd sign (by decide)
  · exact absurd digit (by decide)

/-- **A set of tokens is told by its text.** -/
theorem TokenSet.text_injective : Function.Injective TokenSet.text := by
  -- splitting gives a single empty word if there are no tokens, and no empty word else
  have words : ∀ set : TokenSet,
      (",".intercalate (set.elements.map Token.text)).toList.splitOn ',' =
        if set.elements = [] then [[]] else set.elements.map fun token => token.text.toList := by
    intro set
    split
    · rename_i empty
      rw [empty]
      rfl
    · rename_i some'
      exact Token.splitOn_intercalate some'
  have noneEmpty : ∀ tokens : List Token, [[]] ≠ tokens.map fun token => token.text.toList := by
    intro tokens same
    have member : [] ∈ tokens.map fun token => token.text.toList :=
      same ▸ List.mem_singleton_self []
    obtain ⟨token, -, empty⟩ := List.mem_map.1 member
    exact token.text_ne_empty (String.toList_injective empty)
  have letters : Function.Injective fun token : Token => token.text.toList :=
    fun _ _ same => Token.text_injective (String.toList_injective same)
  intro set other same
  have inner := (String.append_right_inj _).1 ((String.append_left_inj _).1 same)
  have read := congrArg (List.splitOn ',') (congrArg String.toList inner)
  rw [words, words] at read
  have elements : set.elements = other.elements := by
    split at read
    · rename_i empty
      split at read
      · rename_i empty'
        exact empty.trans empty'.symm
      · exact absurd read (noneEmpty _)
    · split at read
      · exact absurd read.symm (noneEmpty _)
      · exact List.map_injective_iff.2 letters read
  cases set
  cases other
  cases elements
  rfl

/-- The letter with which the text of a matcher begins, by which its sort is known. -/
def Matcher.mark : Matcher → Char
  | oneOf _ => '\x7b'
  | noneOf _ => '~'
  | any => '.'

/-- The text of a matcher begins with the letter of its sort. -/
theorem Matcher.head?_text (matcher : Matcher) :
    matcher.text.toList.head? = some matcher.mark := by
  cases matcher with
  | oneOf set =>
    rw [text, TokenSet.text, toList_append_append]
    rfl
  | noneOf set =>
    rw [text, String.toList_append]
    rfl
  | any => rfl

/-- **A matcher is told by its text.** -/
theorem Matcher.text_injective : Function.Injective Matcher.text := by
  intro matcher other same
  have mark : matcher.mark = other.mark := by
    rw [← Option.some_inj, ← head?_text, ← head?_text, same]
  cases matcher with
  | oneOf set =>
    cases other with
    | oneOf set' => exact congrArg oneOf (TokenSet.text_injective same)
    | noneOf set' => simp [Matcher.mark] at mark
    | any => simp [Matcher.mark] at mark
  | noneOf set =>
    cases other with
    | oneOf set' => simp [Matcher.mark] at mark
    | noneOf set' =>
      exact congrArg noneOf (TokenSet.text_injective ((String.append_right_inj _).1 same))
    | any => simp [Matcher.mark] at mark
  | any =>
    cases other with
    | oneOf set' => simp [Matcher.mark] at mark
    | noneOf set' => simp [Matcher.mark] at mark
    | any => rfl

end TransitionNetworks
