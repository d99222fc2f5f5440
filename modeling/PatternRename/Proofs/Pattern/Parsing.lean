import PatternRename.Proofs.Pattern.Placeholders

/-!
# Patterns that are read from a text

The tokens of a pattern are read from the fragments of its text one by one.

## Main results

- `Pattern.parse_eq_ok_iff` — the tokens of a pattern are those of the fragments of its text
- `Pattern.width_pos_of_parse` — no field of a pattern that is read has the width zero
-/

namespace PatternRename

namespace Pattern

theorem tokensOf_eq_mapM (pattern : String) (fragments : List Fragment) :
    tokensOf pattern fragments = fragments.mapM (Token.ofFragment pattern) := by
  induction fragments with
  | nil => rfl
  | cons fragment rest ih =>
    rw [tokensOf, List.mapM_cons, ih]
    cases Token.ofFragment pattern fragment with
    | error failure => rfl
    | ok token => cases rest.mapM (Token.ofFragment pattern) <;> rfl

/-- The tokens of a pattern are those of the fragments of its text. -/
theorem parse_eq_ok_iff {text : String} {p : Pattern} :
    parse text = .ok p ↔ ∃ fragments, Fragment.ofText text = .ok fragments ∧
      fragments.mapM (Token.ofFragment text) = .ok p.tokens := by
  rw [parse]
  cases Fragment.ofText text with
  | error flaw => simp
  | ok fragments =>
    simp only [tokensOf_eq_mapM, map_eq_ok_iff, Except.ok.injEq, exists_eq_left']
    constructor
    · rintro ⟨tokens, htokens, rfl⟩
      exact htokens
    · intro htokens
      exact ⟨p.tokens, htokens, rfl⟩

/-- No field of a pattern that is read has the width zero. -/
theorem width_pos_of_parse {text : String} {p : Pattern} (h : parse text = .ok p) {f : Field}
    (hf : f ∈ p.fields) {n : Nat} (hwidth : f.kind.width = .fixed n) : 0 < n := by
  obtain ⟨fragments, -, htokens⟩ := parse_eq_ok_iff.mp h
  obtain ⟨token, htoken, hfield⟩ := List.mem_filterMap.mp hf
  obtain ⟨fragment, -, hfragment⟩ := (mem_iff_of_mapM_eq_ok htokens).mp htoken
  cases Token.ofFragment_eq_ok_iff.mp hfragment with
  | literal word => simp [Token.field?] at hfield
  | field hreads =>
    obtain rfl := Option.some.inj hfield
    obtain ⟨name, spec, -, -, -, -, hspec⟩ := hreads
    exact hspec.width_pos hwidth

end Pattern

end PatternRename
