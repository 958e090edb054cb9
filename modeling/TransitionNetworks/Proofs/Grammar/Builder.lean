import TransitionNetworks.Grammar.Samples
import TransitionNetworks.Proofs.Grammar.Derives

/-! # What a grammar derives as it is written

An alternative with one more step derives what it derives without the step, and behind that what the
step derives (`Derives.append_iff`). So each way to write a step is told by what it puts behind the
words of the alternative: one of the given tokens, a token that is none of them, any token, what the
rule called derives, or nothing. A grammar with one more rule has the alternatives of that rule in
addition to its own (`Grammar.hasAlternative_addRule_iff`). -/

namespace TransitionNetworks

universe u

namespace Derives

variable {ρ : Type u} {has : ρ → Alternative ρ → Prop} {alternative rest : Alternative ρ}
  {word : List Token}

/-- The empty alternative derives the empty word. -/
theorem nil_iff : Derives has [] word ↔ word = [] := by
  constructor
  · intro derives
    cases derives
    rfl
  · rintro rfl
    exact .nil

/-- **Steps in a row** derive what the steps in front derive and behind it what the others do. -/
theorem append_iff : Derives has (alternative ++ rest) word ↔
    ∃ front back, word = front ++ back ∧ Derives has alternative front ∧ Derives has rest back := by
  constructor
  · intro derives
    -- the first step is taken off, and what is behind it is split in the same way
    induction alternative generalizing word with
    | nil => exact ⟨[], word, rfl, .nil, derives⟩
    | cons step others ih =>
      cases derives with
      | oneOf listed behind =>
        obtain ⟨front, back, rfl, first, second⟩ := ih behind
        exact ⟨_ :: front, back, rfl, .oneOf listed first, second⟩
      | noneOf inner unlisted behind =>
        obtain ⟨front, back, rfl, first, second⟩ := ih behind
        exact ⟨_ :: front, back, rfl, .noneOf inner unlisted first, second⟩
      | any inner behind =>
        obtain ⟨front, back, rfl, first, second⟩ := ih behind
        exact ⟨_ :: front, back, rfl, .any inner first, second⟩
      | call way through behind =>
        obtain ⟨front, back, rfl, first, second⟩ := ih behind
        exact ⟨_ ++ front, back, (List.append_assoc ..).symm, .call way through first, second⟩
      | epsilon behind =>
        obtain ⟨front, back, rfl, first, second⟩ := ih behind
        exact ⟨front, back, rfl, .epsilon first, second⟩
  · rintro ⟨front, back, rfl, first, second⟩
    exact first.append second

/-- A matcher on its own derives the words of one token that it accepts. -/
theorem consume_iff {matcher : Matcher} : Derives has [.consume matcher] word ↔
    ∃ token, word = [token] ∧ matcher.accepts token = true := by
  constructor
  · intro derives
    cases derives with
    | oneOf listed behind =>
      cases nil_iff.1 behind
      exact ⟨_, rfl, (Matcher.accepts_oneOf _ _).2 listed⟩
    | noneOf inner unlisted behind =>
      cases nil_iff.1 behind
      exact ⟨_, rfl, (Matcher.accepts_noneOf _ _).2 ⟨inner, unlisted⟩⟩
    | any inner behind =>
      cases nil_iff.1 behind
      exact ⟨_, rfl, (Matcher.accepts_any _).2 inner⟩
  · rintro ⟨token, rfl, accepts⟩
    exact consume accepts .nil

/-- A matcher behind an alternative derives one token more. -/
theorem append_consume_iff {matcher : Matcher} :
    Derives has (alternative ++ [.consume matcher]) word ↔ ∃ front token,
      word = front ++ [token] ∧ matcher.accepts token = true ∧ Derives has alternative front := by
  rw [append_iff]
  constructor
  · rintro ⟨front, back, rfl, derives, matched⟩
    obtain ⟨token, rfl, accepts⟩ := consume_iff.1 matched
    exact ⟨front, token, rfl, accepts, derives⟩
  · rintro ⟨front, token, rfl, accepts, derives⟩
    exact ⟨front, [token], rfl, derives, consume accepts .nil⟩

/-! ## Writing an alternative -/

/-- **A choice of tokens** derives one of them behind the rest, the end marker too if it is given. -/
theorem terms_iff {tokens : List Token} : Derives has (alternative.terms tokens) word ↔
    ∃ front token, word = front ++ [token] ∧ token ∈ tokens ∧ Derives has alternative front := by
  simp [Alternative.terms, append_consume_iff]

/-- **A single token** derives itself behind the rest. -/
theorem term_iff {token : Token} : Derives has (alternative.term token) word ↔
    ∃ front, word = front ++ [token] ∧ Derives has alternative front := by
  simp [Alternative.term, terms_iff]

/-- **A choice of tokens to leave out** derives another token behind the rest, but not the end marker.
-/
theorem notTerms_iff {tokens : List Token} : Derives has (alternative.notTerms tokens) word ↔
    ∃ front token, word = front ++ [token] ∧ (token ≠ Token.endMarker ∧ token ∉ tokens) ∧
      Derives has alternative front := by
  simp [Alternative.notTerms, append_consume_iff]

/-- **The wildcard** derives any token behind the rest, but not the end marker. -/
theorem wildcard_iff : Derives has alternative.wildcard word ↔
    ∃ front token, word = front ++ [token] ∧ token ≠ Token.endMarker ∧
      Derives has alternative front := by
  simp [Alternative.wildcard, append_consume_iff]

/-- **A call** derives what an alternative of the rule derives, behind the rest. -/
theorem call_iff {rule : ρ} : Derives has (alternative.call rule) word ↔
    ∃ front inside way, word = front ++ inside ∧ has rule way ∧ Derives has way inside ∧
      Derives has alternative front := by
  rw [Alternative.call, append_iff]
  constructor
  · rintro ⟨front, back, rfl, derives, called⟩
    cases called with
    | call has through behind =>
      cases nil_iff.1 behind
      exact ⟨front, _, _, by rw [List.append_nil], has, through, derives⟩
  · rintro ⟨front, inside, way, rfl, has, through, derives⟩
    exact ⟨front, inside, rfl, derives, by simpa using Derives.call has through .nil⟩

/-- **An epsilon step** derives nothing behind the rest. -/
theorem epsilon_iff {kind : EpsilonKind} :
    Derives has (alternative.epsilon kind) word ↔ Derives has alternative word := by
  rw [Alternative.epsilon, append_iff]
  constructor
  · rintro ⟨front, back, rfl, derives, nothing⟩
    cases nothing with
    | epsilon behind =>
      cases nil_iff.1 behind
      rwa [List.append_nil]
  · intro derives
    exact ⟨word, [], by rw [List.append_nil], derives, .epsilon .nil⟩

end Derives

/-! ## Writing a grammar -/

/-- A grammar has the alternatives of a rule that is written behind its own. -/
theorem Grammar.hasAlternative_addRule_iff {grammar : Grammar} {name other : String}
    {write : Production String → Production String} {alternative : Alternative String}
    (keeps : (write (.named name)).name = name) :
    (grammar.addRule name write).HasAlternative other alternative ↔
      grammar.HasAlternative other alternative ∨
        other = name ∧ alternative ∈ (write (.named name)).alternatives := by
  simp only [Grammar.HasAlternative, Grammar.addRule, List.mem_append, List.mem_singleton]
  constructor
  · rintro ⟨production, old | rfl, named, member⟩
    · exact .inl ⟨production, old, named, member⟩
    · exact .inr ⟨named.symm.trans keeps, member⟩
  · rintro (⟨production, old, named, member⟩ | ⟨rfl, member⟩)
    · exact ⟨production, .inl old, named, member⟩
    · exact ⟨_, .inr rfl, keeps, member⟩

/-- The rule of nested parentheses derives an atom between parentheses, as it is written. -/
theorem Samples.ruleDerives_nestedParens :
    nestedParens.RuleDerives "E" [openParen, atom, closeParen] := by
  let inner : Alternative String := Alternative.term atom []
  let opened : Alternative String := Alternative.term openParen []
  let outer : Alternative String := opened.call "E" |>.term closeParen
  have written : ∀ way, way = outer ∨ way = inner → nestedParens.HasAlternative "E" way := by
    intro way either
    refine (Grammar.hasAlternative_addRule_iff rfl).2 (.inr ⟨rfl, ?_⟩)
    simpa [Production.named] using either
  have bare : Derives nestedParens.HasAlternative inner [atom] := Derives.term_iff.2 ⟨[], rfl, .nil⟩
  have front : Derives nestedParens.HasAlternative opened [openParen] :=
    Derives.term_iff.2 ⟨[], rfl, .nil⟩
  have called : Derives nestedParens.HasAlternative (opened.call "E") [openParen, atom] :=
    Derives.call_iff.2 ⟨[openParen], [atom], inner, rfl, written inner (.inr rfl), bare, front⟩
  exact ⟨outer, written outer (.inl rfl), Derives.term_iff.2 ⟨[openParen, atom], rfl, called⟩⟩

end TransitionNetworks
