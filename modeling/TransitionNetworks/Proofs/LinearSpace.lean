import TransitionNetworks.Proofs.Grammar.Decision
import TransitionNetworks.Proofs.Nesting
import TransitionNetworks.Proofs.Summing

/-! # Runs in linear space

How much a run finds may grow with the square of the length of its input. Where calls are nested,
and where they go round to the left, it grows no faster than the input: the samples for either are
recognized with as many items and nodes for each level, or for each operand, as for the next one
(`Samples.exists_recognition_linear`). -/

namespace TransitionNetworks

namespace Samples

/-- **Nested and left-recursive inputs cost linear space.** The grammar of nested parentheses has a
network in which its rule is rule `0`. On an atom inside `depth` pairs of parentheses the run from
this rule accepts behind the last parenthesis, with `2 * depth + 2` positions, `7 * depth + 5` items
and as many provenances, and `depth + 1` nodes. The grammar of arithmetic has a network in which the
rule of sums is rule `0`. On a sum of `count` ones, where there is at least one, the run from this
rule accepts behind the last one, with `2 * count` positions, `27 * count + 4` items and as many
provenances, and `3 * count + 2` nodes. -/
theorem exists_recognition_linear :
    (∃ network, nestedParens.toNetwork = .ok network ∧ network.ruleNamed? "E" = some 0 ∧
      ∀ depth, ∃ recognition,
        network.recognition 0
          (List.replicate depth openParen ++ atom :: List.replicate depth closeParen) =
            .ok recognition ∧
        recognition.accepting = some ⟨2 * depth + 1, ⟨1, 0, emptyStack⟩⟩ ∧
        recognition.statistics = ⟨2 * depth + 2, 7 * depth + 5, depth + 1, 7 * depth + 5⟩) ∧
    ∃ network, arithmetic.toNetwork = .ok network ∧ network.ruleNamed? "S" = some 0 ∧
      ∀ count, 1 ≤ count → ∃ recognition,
        network.recognition 0 (one :: (List.replicate (count - 1) [plus, one]).flatten) =
          .ok recognition ∧
        recognition.accepting = some ⟨2 * count - 1, ⟨1, 0, emptyStack⟩⟩ ∧
        recognition.statistics =
          ⟨2 * count, 27 * count + 4, 3 * count + 2, 27 * count + 4⟩ := by
  constructor
  · obtain ⟨network, built, known, isTable⟩ := Nesting.exists_network
    obtain ⟨productions, resolved, laidOut⟩ := Grammar.exists_layout built
    have defined : nestedParens.productions[0]? = some ⟨"E", _⟩ := rfl
    have named := Grammar.ruleNamed?_eq_some resolved laidOut defined
    exact ⟨network, built, named, Nesting.exists_recognition known isTable⟩
  · obtain ⟨network, built, known, isTable⟩ := Summing.exists_network
    obtain ⟨productions, resolved, laidOut⟩ := Grammar.exists_layout built
    have defined : arithmetic.productions[0]? = some ⟨"S", _⟩ := rfl
    have named := Grammar.ruleNamed?_eq_some resolved laidOut defined
    refine ⟨network, built, named, ?_⟩
    rintro (_ | more) positive
    · exact absurd positive (Nat.not_succ_le_zero 0)
    · exact Summing.exists_recognition known isTable more

/-- An atom inside three pairs of parentheses costs twenty-six items, and a sum of two ones
fifty-eight. -/
theorem exists_recognition_linear_three_two :
    (∃ network recognition, nestedParens.toNetwork = .ok network ∧
      network.recognition 0
        [openParen, openParen, openParen, atom, closeParen, closeParen, closeParen] =
          .ok recognition ∧
      recognition.statistics = ⟨8, 26, 4, 26⟩) ∧
    ∃ network recognition, arithmetic.toNetwork = .ok network ∧
      network.recognition 0 [one, plus, one] = .ok recognition ∧
      recognition.statistics = ⟨4, 58, 8, 58⟩ := by
  obtain ⟨⟨parens, built, -, runs⟩, sums, built', -, runs'⟩ := exists_recognition_linear
  obtain ⟨recognition, ran, -, statistics⟩ := runs 3
  obtain ⟨recognition', ran', -, statistics'⟩ := runs' 2 (by decide)
  exact ⟨⟨parens, recognition, built, ran, statistics⟩,
    ⟨sums, recognition', built', ran', statistics'⟩⟩

end Samples

end TransitionNetworks
