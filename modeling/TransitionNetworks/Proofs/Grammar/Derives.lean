import TransitionNetworks.Grammar
import Mathlib.Data.List.Forall2
import Mathlib.Data.List.Nodup

/-! # The language of a grammar

Read as a context-free grammar, a list of steps derives what its steps derive, one after the other
(`Derives`), and a rule what one of its alternatives derives (`Grammar.RuleDerives`). What rules
have as alternatives is a parameter, since rules go by name in a grammar and by place once it is
resolved.

Replacing rules in steps changes nothing as long as corresponding rules have corresponding
alternatives (`Derives.transport`). A resolved grammar has that property in both directions, because
no two rules have one name, so it derives the same (`Grammar.ruleDerives_iff`). -/

namespace TransitionNetworks

universe u v

/-- **Derivations.** What steps one after the other derive. -/
inductive Derives {ρ : Type u} (has : ρ → Alternative ρ → Prop) : Alternative ρ → List Token → Prop
  /-- No steps derive nothing. -/
  | nil : Derives has [] []
  /-- A set of tokens derives any one of them, the end marker too if it is listed. -/
  | oneOf {set : TokenSet} {token : Token} {rest : Alternative ρ} {tokens : List Token}
      (listed : token ∈ set.elements) (behind : Derives has rest tokens) :
      Derives has (.consume (.oneOf set) :: rest) (token :: tokens)
  /-- The complement of a set derives any token outside but the end marker. -/
  | noneOf {set : TokenSet} {token : Token} {rest : Alternative ρ} {tokens : List Token}
      (inner : token ≠ Token.endMarker) (unlisted : token ∉ set.elements)
      (behind : Derives has rest tokens) :
      Derives has (.consume (.noneOf set) :: rest) (token :: tokens)
  /-- The wildcard derives any token but the end marker. -/
  | any {token : Token} {rest : Alternative ρ} {tokens : List Token}
      (inner : token ≠ Token.endMarker) (behind : Derives has rest tokens) :
      Derives has (.consume .any :: rest) (token :: tokens)
  /-- A call derives what an alternative of its rule derives. -/
  | call {rule : ρ} {alternative rest : Alternative ρ} {inside tokens : List Token}
      (way : has rule alternative) (through : Derives has alternative inside)
      (behind : Derives has rest tokens) : Derives has (.call rule :: rest) (inside ++ tokens)
  /-- An epsilon step derives nothing. -/
  | epsilon {kind : EpsilonKind} {rest : Alternative ρ} {tokens : List Token}
      (behind : Derives has rest tokens) : Derives has (.epsilon kind :: rest) tokens

/-- A step corresponds to another that does the same, or calls a corresponding rule. -/
inductive Step.Corresponds {ρ : Type u} {σ : Type v} (rules : ρ → σ → Prop) : Step ρ → Step σ → Prop
  /-- The same matcher. -/
  | consume (matcher : Matcher) : Corresponds rules (.consume matcher) (.consume matcher)
  /-- Corresponding rules. -/
  | call {rule : ρ} {other : σ} (same : rules rule other) :
      Corresponds rules (.call rule) (.call other)
  /-- The same sort of epsilon step. -/
  | epsilon (kind : EpsilonKind) : Corresponds rules (.epsilon kind) (.epsilon kind)

namespace Derives

variable {ρ : Type u} {σ : Type v} {has : ρ → Alternative ρ → Prop}
  {alternative rest : Alternative ρ} {tokens more : List Token}

/-- A matcher derives the tokens that it accepts. -/
theorem consume {matcher : Matcher} {token : Token} (accepts : matcher.accepts token = true)
    (behind : Derives has rest tokens) :
    Derives has (.consume matcher :: rest) (token :: tokens) := by
  cases matcher with
  | oneOf set => exact .oneOf ((Matcher.accepts_oneOf set token).1 accepts) behind
  | noneOf set =>
    obtain ⟨inner, unlisted⟩ := (Matcher.accepts_noneOf set token).1 accepts
    exact .noneOf inner unlisted behind
  | any => exact .any ((Matcher.accepts_any token).1 accepts) behind

/-- What two lists of steps derive, they derive one behind the other. -/
theorem append (first : Derives has alternative tokens) (second : Derives has rest more) :
    Derives has (alternative ++ rest) (tokens ++ more) := by
  induction first with
  | nil => exact second
  | oneOf listed _ ih => exact .oneOf listed ih
  | noneOf inner unlisted _ ih => exact .noneOf inner unlisted ih
  | any inner _ ih => exact .any inner ih
  | call way through _ _ ih =>
    rw [List.append_assoc]
    exact .call way through ih
  | epsilon _ ih => exact .epsilon ih

/-- **Derivations are transported** to steps that correspond, if corresponding rules have
corresponding alternatives. -/
theorem transport {has' : σ → Alternative σ → Prop} {rules : ρ → σ → Prop}
    (simulates : ∀ rule other alternative, rules rule other → has rule alternative →
      ∃ alternative', has' other alternative' ∧
        List.Forall₂ (Step.Corresponds rules) alternative alternative')
    (derives : Derives has alternative tokens) {alternative' : Alternative σ}
    (corresponds : List.Forall₂ (Step.Corresponds rules) alternative alternative') :
    Derives has' alternative' tokens := by
  -- a step that corresponds to one of a kind is of that kind, so one case of each remains
  induction derives generalizing alternative' with
  | nil =>
    cases corresponds
    exact .nil
  | oneOf listed _ ih =>
    obtain _ | ⟨_ | _, others⟩ := corresponds
    exact .oneOf listed (ih others)
  | noneOf inner unlisted _ ih =>
    obtain _ | ⟨_ | _, others⟩ := corresponds
    exact .noneOf inner unlisted (ih others)
  | any inner _ ih =>
    obtain _ | ⟨_ | _, others⟩ := corresponds
    exact .any inner (ih others)
  | call way _ _ ihThrough ihBehind =>
    obtain _ | ⟨_ | ⟨same⟩, others⟩ := corresponds
    obtain ⟨inside, way', matching⟩ := simulates _ _ _ same way
    exact .call way' (ihThrough matching) (ihBehind others)
  | epsilon _ ih =>
    obtain _ | ⟨_ | _, others⟩ := corresponds
    exact .epsilon (ih others)

end Derives

/-- Steps correspond in both directions. -/
theorem Step.Corresponds.flip {ρ : Type u} {σ : Type v} {rules : ρ → σ → Prop} {step : Step ρ}
    {other : Step σ} (corresponds : step.Corresponds rules other) :
    other.Corresponds (fun second first => rules first second) step := by
  cases corresponds with
  | consume matcher => exact .consume matcher
  | call same => exact .call same
  | epsilon kind => exact .epsilon kind

/-! ## Resolving -/

/-- A list is mapped without an error if each of its elements is. -/
theorem forall₂_of_mapM_eq_ok {α β ε : Type u} {f : α → Except ε β} {list : List α}
    {images : List β} (mapped : list.mapM f = .ok images) :
    List.Forall₂ (fun x y => f x = .ok y) list images := by
  induction list generalizing images with
  | nil =>
    cases mapped
    exact .nil
  | cons x rest ih =>
    rw [List.mapM_cons] at mapped
    cases first : f x with
    | error fault =>
      rw [first] at mapped
      cases mapped
    | ok y =>
      cases others : rest.mapM f with
      | error fault =>
        rw [first, others] at mapped
        cases mapped
      | ok ys =>
        rw [first, others] at mapped
        cases mapped
        exact .cons first (ih others)

/-- The element that corresponds to the one at a place. -/
theorem exists_getElem?_of_forall₂ {α : Type u} {β : Type v} {related : α → β → Prop}
    {list : List α} {others : List β} (all : List.Forall₂ related list others) {n : Nat} {x : α}
    (here : list[n]? = some x) : ∃ y, others[n]? = some y ∧ related x y := by
  induction all generalizing n with
  | nil => simp at here
  | cons first _ ih =>
    cases n with
    | zero =>
      cases here
      exact ⟨_, rfl, first⟩
    | succ n => exact ih here

/-- The element that corresponds to a member. -/
theorem exists_mem_of_forall₂ {α : Type u} {β : Type v} {related : α → β → Prop} {list : List α}
    {others : List β} (all : List.Forall₂ related list others) {x : α} (member : x ∈ list) :
    ∃ y ∈ others, related x y := by
  obtain ⟨n, here⟩ := List.mem_iff_getElem?.1 member
  obtain ⟨y, there, both⟩ := exists_getElem?_of_forall₂ all here
  exact ⟨y, List.mem_of_getElem? there, both⟩

/-- Without repetitions a name is found where it stands. -/
theorem findIdx?_eq_some_iff_of_nodup {names : List String} (unique : names.Nodup) {name : String}
    {n : Nat} : names.findIdx? (· == name) = some n ↔ names[n]? = some name := by
  rw [List.findIdx?_eq_some_iff_getElem]
  constructor
  · rintro ⟨bound, same, -⟩
    rw [List.getElem?_eq_getElem bound, eq_of_beq same]
  · intro here
    obtain ⟨bound, same⟩ := List.getElem?_eq_some_iff.1 here
    refine ⟨bound, beq_iff_eq.2 same, ?_⟩
    -- an earlier place with the name would be the same place
    intro other before equal
    have repeated : names[other] = names[n] := (eq_of_beq equal).trans same.symm
    have place := (List.Nodup.getElem_inj_iff unique).1 repeated
    omega

/-- A production corresponds to another of the same name, alternative by alternative. -/
structure Production.Corresponds {ρ : Type u} {σ : Type v} (rules : ρ → σ → Prop)
    (production : Production ρ) (other : Production σ) : Prop where
  /-- The name is the same. -/
  name : other.name = production.name
  /-- The alternatives correspond step by step. -/
  alternatives : List.Forall₂ (List.Forall₂ (Step.Corresponds rules)) production.alternatives
    other.alternatives

/-- A step corresponds to the one that it becomes when its rule is replaced. -/
theorem Step.corresponds_of_traverse {ρ σ ε : Type u} {f : ρ → Except ε σ} {step : Step ρ}
    {other : Step σ} (replaced : step.traverse f = .ok other) :
    step.Corresponds (fun rule image => f rule = .ok image) other := by
  cases step with
  | consume matcher =>
    cases replaced
    exact .consume matcher
  | call rule =>
    cases found : f rule with
    | error fault =>
      rw [Step.traverse, found] at replaced
      cases replaced
    | ok image =>
      rw [Step.traverse, found] at replaced
      cases replaced
      exact .call found
  | epsilon kind =>
    cases replaced
    exact .epsilon kind

/-- A production corresponds to the one that it becomes when its rules are replaced. -/
theorem Production.corresponds_of_traverse {ρ σ ε : Type u} {f : ρ → Except ε σ}
    {production : Production ρ} {other : Production σ}
    (replaced : production.traverse f = .ok other) :
    production.Corresponds (fun rule image => f rule = .ok image) other := by
  unfold Production.traverse at replaced
  cases mapped : production.alternatives.mapM
      fun steps : Alternative ρ => steps.mapM (Step.traverse f) with
  | error fault =>
    rw [mapped] at replaced
    cases replaced
  | ok alternatives =>
    rw [mapped] at replaced
    cases replaced
    refine ⟨rfl, (forall₂_of_mapM_eq_ok mapped).imp ?_⟩
    intro steps images same
    exact (forall₂_of_mapM_eq_ok same).imp fun _ _ => Step.corresponds_of_traverse

/-- Productions that correspond have the same names. -/
theorem map_name_of_forall₂ {ρ : Type u} {σ : Type v} {rules : ρ → σ → Prop}
    {productions : List (Production ρ)} {others : List (Production σ)}
    (all : List.Forall₂ (Production.Corresponds rules) productions others) :
    others.map Production.name = productions.map Production.name := by
  have same : List.Forall₂ Eq (others.map Production.name) (productions.map Production.name) := by
    rw [List.forall₂_map_left_iff, List.forall₂_map_right_iff]
    exact all.flip.imp fun _ _ corresponds => corresponds.name
  rwa [List.forall₂_eq_eq_eq] at same

/-- An alternative of the rule at a place. -/
def HasAlternativeAt (productions : List (Production Nat)) (rule : Nat)
    (alternative : Alternative Nat) : Prop :=
  ∃ production, productions[rule]? = some production ∧ alternative ∈ production.alternatives

namespace Grammar

/-- An alternative of the rule with a name. -/
def HasAlternative (grammar : Grammar) (name : String) (alternative : Alternative String) : Prop :=
  ∃ production ∈ grammar.productions, production.name = name ∧ alternative ∈ production.alternatives

/-- **What a rule derives.** The rule with a name derives what one of its alternatives derives. -/
def RuleDerives (grammar : Grammar) (name : String) (tokens : List Token) : Prop :=
  ∃ alternative, grammar.HasAlternative name alternative ∧
    Derives grammar.HasAlternative alternative tokens

variable {grammar : Grammar} {productions : List (Production Nat)}

/-- A grammar that is resolved has no name twice, and its productions correspond to those resolved.
-/
theorem corresponds_of_resolve (resolved : grammar.resolve = .ok productions) :
    grammar.names.Nodup ∧
      List.Forall₂ (Production.Corresponds fun name rule => grammar.lookup name = .ok rule)
        grammar.productions productions := by
  unfold resolve at resolved
  split at resolved
  · cases resolved
  · rename_i unique
    refine ⟨(firstRepeated?_eq_none_iff grammar.names).1 unique, ?_⟩
    exact (forall₂_of_mapM_eq_ok resolved).imp fun _ _ => Production.corresponds_of_traverse

/-- A name is looked up where it stands. -/
theorem lookup_eq_ok_iff (unique : grammar.names.Nodup) {name : String} {rule : Nat} :
    grammar.lookup name = .ok rule ↔ grammar.names[rule]? = some name := by
  rw [← findIdx?_eq_some_iff_of_nodup unique, lookup]
  cases grammar.names.findIdx? (· == name) <;> simp

/-- The production at the place of a name has that name, and no other has it. -/
theorem lookup_eq_ok_iff_of_getElem? (unique : grammar.names.Nodup) {name : String} {rule : Nat}
    {production : Production String} (here : grammar.productions[rule]? = some production) :
    grammar.lookup name = .ok rule ↔ production.name = name := by
  rw [lookup_eq_ok_iff unique, names, List.getElem?_map, here]
  exact Option.some_inj

/-- **A grammar derives what it derives when it is resolved.** -/
theorem ruleDerives_iff (resolved : grammar.resolve = .ok productions) {rule : Nat}
    {production : Production String} (here : grammar.productions[rule]? = some production)
    (tokens : List Token) :
    grammar.RuleDerives production.name tokens ↔ ∃ alternative,
      HasAlternativeAt productions rule alternative ∧
        Derives (HasAlternativeAt productions) alternative tokens := by
  obtain ⟨unique, all⟩ := corresponds_of_resolve resolved
  have lookedUp := (lookup_eq_ok_iff_of_getElem? unique here).2 rfl
  -- a name and the place where it is looked up have corresponding alternatives, either way
  have forth : ∀ name place alternative, grammar.lookup name = .ok place →
      grammar.HasAlternative name alternative → ∃ alternative',
        HasAlternativeAt productions place alternative' ∧
          List.Forall₂ (Step.Corresponds fun name place => grammar.lookup name = .ok place)
            alternative alternative' := by
    rintro name place alternative found ⟨defined, member, rfl, way⟩
    -- the rule with the name is the one that the name is looked up as
    obtain ⟨other, there⟩ := List.mem_iff_getElem?.1 member
    have same := (lookup_eq_ok_iff_of_getElem? unique there).2 rfl
    rw [found] at same
    cases same
    obtain ⟨image, imageThere, corresponds⟩ := exists_getElem?_of_forall₂ all there
    obtain ⟨way', member', steps⟩ := exists_mem_of_forall₂ corresponds.alternatives way
    exact ⟨way', ⟨image, imageThere, member'⟩, steps⟩
  have back : ∀ place name alternative, grammar.lookup name = .ok place →
      HasAlternativeAt productions place alternative → ∃ alternative',
        grammar.HasAlternative name alternative' ∧
          List.Forall₂ (Step.Corresponds fun place name => grammar.lookup name = .ok place)
            alternative alternative' := by
    rintro place name alternative found ⟨image, imageThere, way⟩
    obtain ⟨defined, there, corresponds⟩ := exists_getElem?_of_forall₂ all.flip imageThere
    have same := (lookup_eq_ok_iff_of_getElem? unique there).1 found
    obtain ⟨way', member', steps⟩ := exists_mem_of_forall₂ corresponds.alternatives.flip way
    exact ⟨way', ⟨defined, List.mem_of_getElem? there, same, member'⟩,
      steps.flip.imp fun _ _ => Step.Corresponds.flip⟩
  constructor
  · rintro ⟨alternative, way, derives⟩
    obtain ⟨alternative', way', corresponds⟩ := forth _ _ _ lookedUp way
    exact ⟨alternative', way', derives.transport forth corresponds⟩
  · rintro ⟨alternative, way, derives⟩
    obtain ⟨alternative', way', corresponds⟩ := back _ _ _ lookedUp way
    exact ⟨alternative', way', derives.transport back corresponds⟩

end Grammar

end TransitionNetworks
