import TransitionNetworks.Proofs.Derivation.Spelling
import TransitionNetworks.Proofs.Run.Sweep

/-! # What a run accepts

A finished run finds a state outside all calls at a position exactly if a path leads there on the
tokens in front of the position (`Findings.Finished.has_iff_path`): what is found is derived, and
from an item found a path leads to nothing but items found, since they are settled and have led
across their tokens.

Hence a run accepts exactly the language of its start rule, behind the end marker or in front of it
(`Network.recognition_accepting`). -/

namespace TransitionNetworks

namespace Findings

variable {network : Network} {start : Nat} {input : List Token} {findings : Findings}

/-- **Paths are followed.** From an item found a path on the tokens behind it leads to an item
found, inside the same calls. -/
theorem Finished.has_of_path (finished : findings.Finished network start input)
    {origin target : Nat} {tokens : List Token} (path : network.Path origin tokens target)
    {position : Nat} (item : Item) (found : findings.Has position (item.withState origin))
    (read : tokens <+: input.drop position) :
    findings.Has (position + tokens.length) (item.withState target) := by
  induction path generalizing position item with
  | refl origin => exact found
  | @terminal origin here target before matcher token path offers accepts ih =>
    -- an item found in front of the token has led across it
    have front := ih item found ((List.prefix_append before [token]).trans read)
    have next : input[position + before.length]? = some token := by
      obtain ⟨rest, same⟩ := read
      rw [← List.getElem?_drop, ← same]
      simp
    have across := finished.scanned _ _ _ front next matcher target offers accepts
    rwa [List.length_append, List.length_singleton, ← Nat.add_assoc]
  | @epsilon origin here target before kind path offers ih =>
    have front := ih item found read
    exact (finished.settled _ _ front).followed _ offers
  | @call origin here start follow rule stop before inside path offers through stops ihPath
      ihThrough =>
    have front := ihPath item found ((List.prefix_append before inside).trans read)
    obtain ⟨node, frame, entered, registered⟩ := (finished.settled _ _ front).followed _ offers
    -- the call runs on the tokens behind those in front of it
    have readInside : inside <+: input.drop (position + before.length) := by
      obtain ⟨rest, same⟩ := read
      rw [← List.drop_drop, ← same, List.append_assoc, List.drop_left]
      exact List.prefix_append inside rest
    have stopped := ihThrough ⟨start, position + before.length, node⟩ entered readInside
    have returned := (finished.settled _ _ stopped).returned _ frame stops _ registered
    rwa [List.length_append, ← Nat.add_assoc]

/-- **A state is found outside all calls exactly if a path leads there** on the tokens in front. -/
theorem Finished.has_iff_path (finished : findings.Finished network start input)
    (position state : Nat) :
    findings.Has position ⟨state, 0, emptyStack⟩ ↔
      position ≤ input.length ∧ network.Path start (input.take position) state := by
  constructor
  · -- what is found is derived, and its derivation spells the tokens in front
    intro found
    refine ⟨finished.bounded _ _ found, ?_⟩
    obtain ⟨forest, -, -, spells⟩ := finished.linked.derivation found
    rw [← between_zero]
    exact spells.path
  · -- the path is followed from the seed
    rintro ⟨inside, path⟩
    have found := finished.has_of_path path ⟨start, 0, emptyStack⟩ finished.seeded
      (List.take_prefix position input)
    rwa [Nat.zero_add, List.length_take_of_le inside] at found

/-- The item that accepts is found where the run accepts, behind the end marker or in front. -/
theorem acceptance?_eq_some {accept : Item} {last : Nat} {place : Place}
    (accepting : findings.acceptance? accept last = some place) :
    place.item = accept ∧ (place.position = last + 1 ∨ place.position = last) ∧
      findings.Has place.position accept := by
  obtain ⟨position, first, rfl⟩ := Option.map_eq_some_iff.1 accepting
  refine ⟨rfl, by simpa using List.mem_of_find?_eq_some first, ?_⟩
  have contains : findings.chart.contains position accept = true :=
    List.find?_some (p := fun position => findings.chart.contains position accept) first
  exact (findings.has_iff_contains position accept).2 contains

/-- A run accepts behind the end marker if it can, and otherwise in front of it if it can. -/
theorem acceptance?_eq (findings : Findings) (accept : Item) (last : Nat) [DecidablePred fun
    position => findings.Has position accept] :
    findings.acceptance? accept last =
      if findings.Has (last + 1) accept then some ⟨last + 1, accept⟩
      else if findings.Has last accept then some ⟨last, accept⟩
      else none := by
  unfold acceptance?
  simp only [List.find?_cons, List.find?_nil, has_iff_contains]
  -- both sides ask the chart the same two questions
  cases findings.chart.contains (last + 1) accept <;>
    cases findings.chart.contains last accept <;> rfl

/-- A run accepts if its item is found behind the end marker or in front of it. -/
theorem isSome_acceptance?_iff (findings : Findings) (accept : Item) (last : Nat) :
    (findings.acceptance? accept last).isSome = true ↔
      findings.Has (last + 1) accept ∨ findings.Has last accept := by
  simp [acceptance?, has_iff_contains]

end Findings

namespace Network

open Classical in
/-- Where a run accepts: behind the end marker if the tokens with it lead through the rule,
otherwise in front of it if the tokens alone do. -/
theorem accepting_recognitionFrom (network : Network) {startRule : Nat} {rule : Rule}
    (known : network.rule? startRule = some rule) (tokens : List Token) :
    (network.recognitionFrom startRule rule tokens).accepting =
      if network.Path rule.start (beforeEndMarker tokens ++ [Token.endMarker]) rule.stop then
        some ⟨(beforeEndMarker tokens).length + 1, ⟨rule.stop, 0, emptyStack⟩⟩
      else if network.Path rule.start (beforeEndMarker tokens) rule.stop then
        some ⟨(beforeEndMarker tokens).length, ⟨rule.stop, 0, emptyStack⟩⟩
      else none := by
  obtain ⟨finished, accepting⟩ := network.finished_recognitionFrom known tokens
  -- behind the end marker the whole input is read, in front of it all but the end marker
  have behind := finished.has_iff_path ((beforeEndMarker tokens).length + 1) rule.stop
  have front := finished.has_iff_path (beforeEndMarker tokens).length rule.stop
  rw [length_inputOf, List.take_of_length_le (Nat.le_of_eq (length_inputOf tokens)),
    and_iff_right (Nat.le_refl _)] at behind
  rw [length_inputOf, inputOf, List.take_left, and_iff_right (Nat.le_succ _)] at front
  rw [accepting, Findings.acceptance?_eq]
  simp only [behind, front, inputOf]

/-- **A run decides the language of its start rule.** From a rule that exists a run succeeds. It
accepts behind the end marker if the tokens with the end marker lead through the rule, otherwise in
front of it if the tokens alone do, and not at all if neither do. -/
theorem recognition_accepting (network : Network) {startRule : Nat} {rule : Rule}
    (known : network.rule? startRule = some rule) (tokens : List Token) :
    ∃ recognition, network.recognition startRule tokens = .ok recognition ∧
      (network.Path rule.start (beforeEndMarker tokens ++ [Token.endMarker]) rule.stop →
        recognition.accepting =
          some ⟨(beforeEndMarker tokens).length + 1, ⟨rule.stop, 0, emptyStack⟩⟩) ∧
      (¬ network.Path rule.start (beforeEndMarker tokens ++ [Token.endMarker]) rule.stop →
        network.Path rule.start (beforeEndMarker tokens) rule.stop →
        recognition.accepting =
          some ⟨(beforeEndMarker tokens).length, ⟨rule.stop, 0, emptyStack⟩⟩) ∧
      (¬ network.Path rule.start (beforeEndMarker tokens ++ [Token.endMarker]) rule.stop →
        ¬ network.Path rule.start (beforeEndMarker tokens) rule.stop →
        recognition.accepting = none) := by
  refine ⟨network.recognitionFrom startRule rule tokens, recognition_of_rule? known tokens, ?_⟩
  rw [network.accepting_recognitionFrom known tokens]
  refine ⟨?_, ?_, ?_⟩
  · intro long
    rw [if_pos long]
  · intro noLong short
    rw [if_neg noLong, if_pos short]
  · intro noLong noShort
    rw [if_neg noLong, if_neg noShort]

/-- The sample accepts a seven behind the end marker. -/
theorem recognition_accepting_doubling :
    ∃ recognition, doubling.recognition 0 [7] = .ok recognition ∧
      recognition.accepting = some ⟨2, ⟨1, 0, emptyStack⟩⟩ := by
  have known : doubling.rule? 0 = some ⟨"S", 0, 1⟩ := rfl
  obtain ⟨recognition, ran, behind, -⟩ := recognition_accepting doubling known [7]
  have seven := doubling_path_singleton (List.mem_cons_self ..)
  have marker := doubling_path_singleton (List.mem_cons_of_mem 7 (List.mem_cons_self ..))
  exact ⟨recognition, ran, behind (doubling_path_append seven marker)⟩

end Network

end TransitionNetworks
