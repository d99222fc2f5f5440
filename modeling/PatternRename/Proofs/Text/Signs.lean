import PatternRename.Text.Decimal

/-!
# Signed digits

What is read as signed digits is a nonempty run of digits with a sign in front, or with none.

## Main definitions

- `IsSigned` — a run of digits behind a sign or nothing

## Main results

- `SignedDigits.read?_eq_some_iff` — the texts that are read as signed digits
- `SignedDigits.read?_of_digits` — digits without a sign
-/

namespace PatternRename.Text

theorem isDigitRun_iff {cs : List Char} :
    isDigitRun cs = true ↔ cs ≠ [] ∧ ∀ c ∈ cs, c.isDigit = true := by
  simp [isDigitRun]

/-- A nonempty run of digits with a sign in front, or with none. -/
structure IsSigned (cs sign run : List Char) : Prop where
  eq_append : cs = sign ++ run
  sign_mem : sign ∈ [[], ['+'], ['-']]
  ne_nil : run ≠ []
  isDigit : ∀ c ∈ run, c.isDigit = true

namespace SignedDigits

/-- Texts that begin with neither sign are read as they are. -/
theorem read?_of_ne {c : Char} (hminus : c ≠ '-') (hplus : c ≠ '+') (rest : List Char) :
    read? (c :: rest) = if isDigitRun (c :: rest) then some ⟨false, c :: rest⟩ else none := by
  simp [read?, hminus, hplus]

theorem read?_of_digits {cs : List Char} (hne : cs ≠ [])
    (hcs : ∀ c ∈ cs, c.isDigit = true) : read? cs = some ⟨false, cs⟩ := by
  obtain ⟨c, rest, rfl⟩ := List.exists_cons_of_ne_nil hne
  have hc : c.isDigit = true := hcs c List.mem_cons_self
  have hminus : c ≠ '-' := by
    rintro rfl
    exact absurd hc (by decide)
  have hplus : c ≠ '+' := by
    rintro rfl
    exact absurd hc (by decide)
  rw [read?_of_ne hminus hplus, if_pos (isDigitRun_iff.mpr ⟨hne, hcs⟩)]

/-- The texts that are read as signed digits: of the signs, only a minus is kept. -/
theorem read?_eq_some_iff {cs : List Char} {s : SignedDigits} :
    read? cs = some s ↔ ∃ sign run, IsSigned cs sign run ∧ s = ⟨decide (sign = ['-']), run⟩ := by
  constructor
  · intro h
    simp only [read?, Option.ite_none_right_eq_some, Option.some.injEq] at h
    obtain ⟨hrun, rfl⟩ := h
    rw [isDigitRun_iff] at hrun
    split at hrun
    · exact ⟨['-'], _, ⟨rfl, by simp, hrun.1, hrun.2⟩, rfl⟩
    · exact ⟨['+'], _, ⟨rfl, by simp, hrun.1, hrun.2⟩, rfl⟩
    · exact ⟨[], _, ⟨rfl, by simp, hrun.1, hrun.2⟩, rfl⟩
  · rintro ⟨sign, run, ⟨rfl, hsign, hne, hrun⟩, rfl⟩
    have hdigits : isDigitRun run = true := isDigitRun_iff.mpr ⟨hne, hrun⟩
    simp only [List.mem_cons, List.not_mem_nil, or_false] at hsign
    rcases hsign with rfl | rfl | rfl
    · exact read?_of_digits hne hrun
    · simp [read?, hdigits]
    · simp [read?, hdigits]

end SignedDigits

end PatternRename.Text
