import PatternRename.Proofs.Matching.Language
import PatternRename.Proofs.Renaming.FixedWidth
import PatternRename.Proofs.Text.Numerals

/-!
# Numbers in fields of fixed width

A value of a number field goes into a field of fixed width exactly if it is an integer. It is then
written in this width for the same integer, with a minus if it has one, and no digit is lost. What
has been written can be written again, and the last width alone decides the text.

## Main results

- `FieldKind.isInteger_iff_of_admits` — the values of number fields that are integers
- `padNumber_fixed_of_read?`, `padNumber_fixed_write` — signed digits in a width, and again in
  another one
- `reencode_fixed_outcome` — all values, in all fields of fixed width
-/

namespace PatternRename

/-! ### Integers among the values of number fields -/

/-- Of the values of a number field, all but the empty one and those with a point are integers. -/
theorem FieldKind.isInteger_iff_of_admits {kind : FieldKind} (hkind : kind.isNumeric = true)
    {text : List Char} (h : kind.Admits text) :
    Text.IsInteger text ↔ text ≠ [] ∧ '.' ∉ text := by
  constructor
  · rintro ⟨sign, run, hsigned⟩
    exact ⟨hsigned.text_ne_nil, hsigned.point_not_mem⟩
  · rintro ⟨hne, hpoint⟩
    cases kind with
    | character w => exact absurd hkind Bool.false_ne_true
    | digit w | integer w => exact ⟨[], text, Text.isSigned_of_digits hne h.1⟩
    | float =>
      obtain ⟨sign, whole, ds, rfl, hsign, hwhole, hds, hdigits⟩ := h
      -- without a point there is no whole part in front of it
      obtain rfl : whole = [] := by
        rcases hwhole with rfl | ⟨front, rfl, -⟩
        · rfl
        · simp at hpoint
      exact ⟨sign, ds, rfl, by simpa using hsign, hds, hdigits⟩

/-! ### Signed digits in a width -/

theorem padNumber_fixed_of_not_isInteger {field raw : String}
    (h : ¬ Text.IsInteger raw.toList) (width : Nat) :
    padNumber field raw (.fixed width) =
      .error (.invalidFieldValue field raw (.notAnInteger width)) := by
  have hnone : Text.SignedDigits.read? raw.toList = none := by
    rw [Option.eq_none_iff_forall_ne_some]
    intro s hs
    obtain ⟨sign, run, hsigned, -⟩ := Text.SignedDigits.read?_eq_some_iff.mp hs
    exact h ⟨sign, run, hsigned⟩
  rw [padNumber, hnone]

theorem padNumber_fixed_of_read? {field raw : String} {s : Text.SignedDigits}
    (h : Text.SignedDigits.read? raw.toList = some s) {width : Nat}
    (hwidth : width ≤ Text.maxPadding) :
    padNumber field raw (.fixed width) = .ok (String.ofList (s.write width)) := by
  have hdigits : ¬ Text.maxPadding < s.digitWidth width :=
    Nat.not_lt.mpr (Nat.le_trans (Nat.sub_le width s.sign.length) hwidth)
  rw [padNumber, h]
  simp only [if_neg hdigits]

/-- What is written for signed digits that have been written already is what is written for them
at once. -/
theorem padNumber_fixed_write {raw : String} {s : Text.SignedDigits}
    (h : Text.SignedDigits.read? raw.toList = some s) (field other : String) (width again : Nat) :
    padNumber field (String.ofList (s.write width)) (.fixed again) =
      padNumber other raw (.fixed again) := by
  rw [padNumber, padNumber, String.toList_ofList, Text.SignedDigits.read?_write h, h]
  simp only [Text.SignedDigits.write_zeroPad]
  rfl

/-! ### Values of number fields -/

section

variable {input output : Field} {width : Nat} {raw : String}
  (hinput : input.kind.isNumeric = true) (houtput : output.kind.width = .fixed width)

include hinput houtput

theorem reencode_fixed_of_not_isInteger (h : ¬ Text.IsInteger raw.toList) (index : Nat) :
    reencode index input output raw =
      .error (.invalidFieldValue input.name raw (.notAnInteger width)) := by
  rw [reencode_of_isNumeric hinput houtput, padNumber_fixed_of_not_isInteger h]
  rfl

theorem reencode_fixed_of_read? {s : Text.SignedDigits}
    (h : Text.SignedDigits.read? raw.toList = some s) (hwidth : width ≤ Text.maxPadding)
    (index : Nat) :
    reencode index input output raw = .ok (.text (String.ofList (s.write width))) := by
  rw [reencode_of_isNumeric hinput houtput, padNumber_fixed_of_read? h hwidth]
  rfl

theorem exists_reencode_fixed_iff (hwidth : width ≤ Text.maxPadding) (index : Nat) :
    (∃ segment, reencode index input output raw = .ok segment) ↔ Text.IsInteger raw.toList := by
  constructor
  · rintro ⟨segment, hsegment⟩
    by_contra hnot
    rw [reencode_fixed_of_not_isInteger hinput houtput hnot] at hsegment
    simp at hsegment
  · rintro ⟨sign, run, hsigned⟩
    exact ⟨_, reencode_fixed_of_read? hinput houtput hsigned.read?_eq hwidth index⟩

end

/-- The outcome for every value of a number field in a field of fixed width. Integers are written,
and all other values are refused; of the values that the number field itself takes, these are the
empty one and those with a point. What is written stands for the same integer in this width, and
in a field of any other fixed width it has the text that the value itself has there. -/
theorem reencode_fixed_outcome {input output : Field} (hinput : input.kind.isNumeric = true)
    {width : Nat} (houtput : output.kind.width = .fixed width) (hwidth : width ≤ Text.maxPadding)
    (index : Nat) (raw : String) :
    ((∃ segment, reencode index input output raw = .ok segment) ↔ Text.IsInteger raw.toList) ∧
      (¬ Text.IsInteger raw.toList → reencode index input output raw =
        .error (.invalidFieldValue input.name raw (.notAnInteger width))) ∧
      (raw.toList = [] ∨ '.' ∈ raw.toList → ¬ Text.IsInteger raw.toList) ∧
      (input.kind.Admits raw.toList → ¬ Text.IsInteger raw.toList →
        raw.toList = [] ∨ '.' ∈ raw.toList) ∧
      ∀ segment, reencode index input output raw = .ok segment →
        ∃ text : String, segment = .text text ∧ Text.Repads width text.toList raw.toList ∧
          ∀ (again next : Field) (position other : Nat), again.kind.isNumeric = true →
            next.kind.width = .fixed other →
            reencode position again next text = reencode index input next raw := by
  have hexists := @exists_reencode_fixed_iff _ _ _ raw hinput houtput hwidth index
  refine ⟨hexists, fun hnot => reencode_fixed_of_not_isInteger hinput houtput hnot index, ?_, ?_, ?_⟩
  · rintro hflaw ⟨sign, run, hsigned⟩
    rcases hflaw with hnil | hpoint
    · exact hsigned.text_ne_nil hnil
    · exact hsigned.point_not_mem hpoint
  · intro hadmits hnot
    rw [FieldKind.isInteger_iff_of_admits hinput hadmits] at hnot
    tauto
  · intro segment hsegment
    obtain ⟨sign, run, hsigned⟩ := hexists.mp ⟨segment, hsegment⟩
    have hread := hsigned.read?_eq
    rw [reencode_fixed_of_read? hinput houtput hread hwidth, Except.ok.injEq] at hsegment
    refine ⟨_, hsegment.symm, ?_, ?_⟩
    · rw [String.toList_ofList]
      exact Text.SignedDigits.repads_write hread width
    · intro again next position other hagain hnext
      rw [reencode_of_isNumeric hagain hnext, reencode_of_isNumeric hinput hnext,
        padNumber_fixed_write hread]

theorem reencode_fixed_outcome_negative :
    FieldKind.float.Admits "-007".toList ∧
      reencode 0 ⟨"z", .float⟩ ⟨"z", .character (.fixed 3)⟩ "-007" = .ok (.text "-07") ∧
      Text.Repads 3 "-07".toList "-007".toList ∧
      reencode 1 ⟨"row", .digit .unbounded⟩ ⟨"row", .integer (.fixed 5)⟩ "-07" =
        reencode 0 ⟨"z", .float⟩ ⟨"row", .integer (.fixed 5)⟩ "-007" := by
  have hadmits : FieldKind.float.Admits "-007".toList :=
    ⟨['-'], [], ['0', '0', '7'], rfl, Or.inr (Or.inr rfl), Or.inl rfl, by simp, by simp⟩
  have hrun : reencode 0 ⟨"z", .float⟩ ⟨"z", .character (.fixed 3)⟩ "-007" = .ok (.text "-07") := by
    decide +kernel
  obtain ⟨text, htext, hrepads, hagain⟩ := (@reencode_fixed_outcome ⟨"z", .float⟩
    ⟨"z", .character (.fixed 3)⟩ rfl 3 rfl (by decide) 0 "-007").2.2.2.2 _ hrun
  obtain rfl := Segment.text.inj htext
  exact ⟨hadmits, hrun, hrepads,
    hagain ⟨"row", .digit .unbounded⟩ ⟨"row", .integer (.fixed 5)⟩ 1 5 rfl rfl⟩

end PatternRename
