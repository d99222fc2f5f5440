import PatternRename.Proofs.Pattern.Rendering

/-!
# The grammar of patterns

A text is a pattern if its braces alternate and each placeholder is a name, a colon and a specifier.
A text that is no pattern is refused for its braces, or else for the first placeholder from the left
that does not fit.

## Main results

- `Pattern.parse_outcome` — the outcome for every text
-/

namespace PatternRename

namespace Pattern

theorem parse_eq_error_iff {text : String} {failure : Failure} :
    parse text = .error failure ↔
      (∃ flaw, Fragment.ofText text = .error flaw ∧ failure = .malformedPattern text flaw) ∨
      ∃ front inside rest, Fragment.ofText text = .ok (front ++ .placeholder inside :: rest) ∧
        (∀ before, .placeholder before ∈ front → IsPlaceholder before.toList) ∧
        PlaceholderFault text inside failure := by
  rw [parse]
  cases Fragment.ofText text with
  | error flaw => simp [eq_comm]
  | ok fragments =>
    simp only [tokensOf_eq_mapM, map_eq_error_iff, mapM_eq_error_iff, Token.exists_ofFragment_iff,
      Token.ofFragment_eq_error_iff, Except.ok.injEq, reduceCtorEq, false_and, exists_false,
      false_or]
    constructor
    · rintro ⟨front, fragment, rest, rfl, hfront, inside, rfl, hfault⟩
      exact ⟨front, inside, rest, rfl, fun before hbefore => hfront _ hbefore _ rfl, hfault⟩
    · rintro ⟨front, inside, rest, rfl, hfront, hfault⟩
      refine ⟨front, _, rest, rfl, ?_, inside, rfl, hfault⟩
      rintro fragment hmem before rfl
      exact hfront before hmem

theorem exists_parse_iff {text : String} :
    (∃ p, parse text = .ok p) ↔ ∃ fragments, Fragment.ofText text = .ok fragments ∧
      ∀ inside, .placeholder inside ∈ fragments → IsPlaceholder inside.toList := by
  have hfit : ∀ fragments : List Fragment,
      (∃ tokens, fragments.mapM (Token.ofFragment text) = .ok tokens) ↔
        ∀ inside, .placeholder inside ∈ fragments → IsPlaceholder inside.toList := by
    intro fragments
    simp only [exists_mapM_eq_ok_iff, Token.exists_ofFragment_iff]
    constructor
    · intro h inside hinside
      exact h _ hinside inside rfl
    · rintro h fragment hmem inside rfl
      exact h inside hmem
  simp only [parse_eq_ok_iff, ← hfit]
  constructor
  · rintro ⟨p, fragments, hfragments, htokens⟩
    exact ⟨fragments, hfragments, p.tokens, htokens⟩
  · rintro ⟨fragments, hfragments, tokens, htokens⟩
    exact ⟨⟨tokens⟩, fragments, hfragments, htokens⟩

/-- The kind of a field that is read is read again from the specifier that it is written with. -/
theorem parse_spec_of_parse {text : String} {p : Pattern} (h : parse text = .ok p) {f : Field}
    (hf : f ∈ p.fields) (name : String) : FieldKind.parse name f.kind.spec = .ok f.kind := by
  rw [FieldKind.parse, FieldKind.ofSpec?_spec fun n hn => width_pos_of_parse h hf hn]

/-- The outcome for every text. It is a pattern if its braces alternate and each of its placeholders
fits the grammar. Its tokens are then those that its fragments stand for, and the kinds of its
fields can be written and read again. Otherwise the braces are to blame, or else the first
placeholder that does not fit. -/
theorem parse_outcome (text : String) :
    ((∃ p, parse text = .ok p) ↔ ∃ fragments, Fragment.ofText text = .ok fragments ∧
        ∀ inside, .placeholder inside ∈ fragments → IsPlaceholder inside.toList) ∧
      (∀ p, parse text = .ok p ↔ ∃ fragments, Fragment.ofText text = .ok fragments ∧
        List.Forall₂ Token.Reads fragments p.tokens) ∧
      (∀ p, parse text = .ok p → ∀ f ∈ p.fields, ∀ name,
        FieldKind.parse name f.kind.spec = .ok f.kind) ∧
      ∀ failure, parse text = .error failure ↔
        (∃ flaw, Fragment.ofText text = .error flaw ∧ failure = .malformedPattern text flaw) ∨
        ∃ front inside rest, Fragment.ofText text = .ok (front ++ .placeholder inside :: rest) ∧
          (∀ before, .placeholder before ∈ front → IsPlaceholder before.toList) ∧
          PlaceholderFault text inside failure := by
  refine ⟨exists_parse_iff, fun p => ?_, fun p h f hf => parse_spec_of_parse h hf,
    fun failure => parse_eq_error_iff⟩
  simp only [parse_eq_ok_iff, mapM_eq_ok_iff, Token.ofFragment_eq_ok_iff]

theorem parse_outcome_mixedWord :
    parse "p{ row : di }" = .ok ⟨[.literal "p", .field ⟨"row", .digit (.fixed 2)⟩]⟩ ∧
      FieldKind.parse "row" "dd" = .ok (.digit (.fixed 2)) := by
  have h : parse "p{ row : di }" =
      .ok ⟨[.literal "p", .field ⟨"row", .digit (.fixed 2)⟩]⟩ := by
    decide +kernel
  exact ⟨h, (parse_outcome _).2.2.1 _ h ⟨"row", .digit (.fixed 2)⟩ (by decide) "row"⟩

end Pattern

end PatternRename
