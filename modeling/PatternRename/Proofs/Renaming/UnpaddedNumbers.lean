import PatternRename.Proofs.Renaming.PaddedNumbers
import PatternRename.Proofs.Renaming.SamePattern

/-!
# Numbers in fields without a width

In a digit or text field without a width, a value of a number field loses its leading zeros if it is
a plain run of digits, and stays as it is otherwise. So the zeros behind a sign stay, and a text
field does not show how many zeros a run of digits had: runs that stand for one number become the
same text there.

## Main definitions

- `Text.unpad` — a text without its leading zeros, if it is a run of digits

## Main results

- `Text.unpad_eq_unpad_iff` — the texts that become the same
- `reencode_unbounded_integer` — integers in number fields without a width
- `signed_zeros_stay` — a signed value with leading zeros
- `reencode_unbounded_text` — the values of number fields in text fields without a width
- `zeros_lost_in_text` — two values that become the same
-/

namespace PatternRename

/-! ### Runs of digits without their leading zeros -/

namespace Text

/-- A run of digits without its leading zeros, and any other text as it is. -/
def unpad (text : String) : String :=
  if isDigitRun text.toList then String.ofList (stripZeros text.toList) else text

theorem unpad_of_isDigitRun {text : String} (h : isDigitRun text.toList = true) :
    unpad text = String.ofList (digits (Nat.ofDigitChars 10 text.toList 0)) := by
  rw [unpad, if_pos h, stripZeros_eq_digits (isDigitRun_iff.mp h).2]

theorem unpad_of_not_isDigitRun {text : String} (h : ¬ isDigitRun text.toList = true) :
    unpad text = text :=
  if_neg h

theorem isDigitRun_unpad_iff (text : String) :
    isDigitRun (unpad text).toList = true ↔ isDigitRun text.toList = true := by
  by_cases h : isDigitRun text.toList = true
  · rw [unpad, if_pos h, String.toList_ofList, isDigitRun_iff]
    exact iff_of_true
      ⟨stripZeros_ne_nil _, isDigit_of_mem_stripZeros (isDigitRun_iff.mp h).2⟩ h
  · rw [unpad_of_not_isDigitRun h]

/-- A text changes exactly if it is a run of digits with zeros in front. -/
theorem unpad_eq_self_iff (text : String) :
    unpad text = text ↔ ¬ (isDigitRun text.toList = true ∧ HasLeadingZeros text.toList) := by
  by_cases h : isDigitRun text.toList = true
  · rw [unpad, if_pos h, ← String.toList_inj, String.toList_ofList,
      stripZeros_eq_self_iff (isDigitRun_iff.mp h).1, and_iff_right h]
  · exact iff_of_true (unpad_of_not_isDigitRun h) fun hzeros => h hzeros.1

/-- Two texts become the same exactly if they are the same, or runs of digits for one number. -/
theorem unpad_eq_unpad_iff {text other : String} :
    unpad text = unpad other ↔ text = other ∨
      isDigitRun text.toList = true ∧ isDigitRun other.toList = true ∧
        Nat.ofDigitChars 10 text.toList 0 = Nat.ofDigitChars 10 other.toList 0 := by
  constructor
  · intro h
    have hruns : isDigitRun text.toList = true ↔ isDigitRun other.toList = true := by
      rw [← isDigitRun_unpad_iff text, h, isDigitRun_unpad_iff]
    by_cases hrun : isDigitRun text.toList = true
    · refine Or.inr ⟨hrun, hruns.mp hrun, ?_⟩
      rw [unpad_of_isDigitRun hrun, unpad_of_isDigitRun (hruns.mp hrun), String.ofList_inj] at h
      exact eq_of_digits_eq h
    · rw [unpad_of_not_isDigitRun hrun, unpad_of_not_isDigitRun (mt hruns.mpr hrun)] at h
      exact Or.inl h
  · rintro (rfl | ⟨hrun, hother, hnumber⟩)
    · rfl
    · rw [unpad_of_isDigitRun hrun, unpad_of_isDigitRun hother, hnumber]

end Text

theorem reencode_unbounded {input output : Field} (hinput : input.kind.isNumeric = true)
    (houtput : output.kind.width = .unbounded) (hfloat : output.kind ≠ .float) (index : Nat)
    (raw : String) : reencode index input output raw = .ok (.text (Text.unpad raw)) := by
  rw [reencode_eq_map_padNumber hinput hfloat, houtput]
  rfl

/-! ### Integers in number fields without a width -/

theorem FieldKind.width_of_isUnboundedRun {kind : FieldKind} (h : kind.isUnboundedRun = true) :
    kind.width = .unbounded ∧ kind ≠ .float := by
  cases kind with
  | digit w | integer w =>
    cases w with
    | unbounded => exact ⟨rfl, by simp⟩
    | fixed n => exact absurd h Bool.false_ne_true
  | character w | float => exact absurd h Bool.false_ne_true

namespace Text.IsSigned

variable {text : String} {sign run : List Char}

/-- Signed digits lose their leading zeros only if they have no sign. -/
theorem unpad_eq (h : IsSigned text.toList sign run) :
    unpad text = if sign = [] then String.ofList (stripZeros run) else text := by
  by_cases hsign : sign = []
  · subst hsign
    have hrun : text.toList = run := h.eq_append
    rw [if_pos rfl, unpad, hrun, if_pos (isDigitRun_iff.mpr ⟨h.ne_nil, h.isDigit⟩)]
  · rw [if_neg hsign]
    apply unpad_of_not_isDigitRun
    intro hrun
    -- a run of digits is read without a sign
    have hplain := isDigitRun_iff.mp hrun
    exact hsign (h.unique (isSigned_of_digits hplain.1 hplain.2)).1

/-- What is left of signed digits without their zeros is their shortest text if they have no sign,
or a minus and no zeros in front. -/
theorem unpad_eq_ofList_write_one_iff (h : IsSigned text.toList sign run) :
    unpad text = String.ofList (SignedDigits.write 1 ⟨decide (sign = ['-']), run⟩) ↔
      sign = [] ∨ sign = ['-'] ∧ ¬ HasLeadingZeros run := by
  rw [h.unpad_eq, SignedDigits.write_of_le_one _ (Nat.le_refl 1)]
  rcases h.sign_cases with rfl | rfl | rfl
  · simp [SignedDigits.sign]
  · -- the plus is kept in the one text and dropped in the other
    have hplus : text.toList ≠ stripZeros run := by
      intro heq
      have hmem : '+' ∈ text.toList := by simp [h.eq_append]
      rw [heq] at hmem
      exact absurd (isDigit_of_mem_stripZeros h.isDigit _ hmem) (by decide)
    simpa [SignedDigits.sign, ← String.toList_inj] using hplus
  · rw [← stripZeros_eq_self_iff h.ne_nil]
    simp [SignedDigits.sign, ← String.toList_inj, h.eq_append, eq_comm]

end Text.IsSigned

/-- An integer goes into a number field without a width as a text for the same integer. Without a
sign it loses its leading zeros and has the text of a field of one digit, which is the shortest one.
With a sign it stays as it is, and that is the shortest text only for a minus and no zeros. -/
theorem reencode_unbounded_integer {input wide narrow : Field}
    (hinput : input.kind.isNumeric = true) (hwide : wide.kind.isUnboundedRun = true)
    (hnarrow : narrow.kind.width = .fixed 1) (index : Nat) {raw : String} {sign run : List Char}
    (hraw : Text.IsSigned raw.toList sign run) :
    ∃ text short : String, reencode index input wide raw = .ok (.text text) ∧
      reencode index input narrow raw = .ok (.text short) ∧
      Text.Respells text.toList raw.toList ∧ Text.Respells short.toList raw.toList ∧
      Text.IsShortest short.toList ∧ (sign = [] → text = short) ∧ (sign ≠ [] → text = raw) ∧
      (text = short ↔ sign = [] ∨ sign = ['-'] ∧ ¬ Text.HasLeadingZeros run) := by
  have hread := hraw.read?_eq
  have hsame := hraw.unpad_eq_ofList_write_one_iff
  have hshort := Text.SignedDigits.respells_write hread 1
  refine ⟨Text.unpad raw, _, ?_, reencode_fixed_of_read? hinput hnarrow hread (by decide) index, ?_,
    ?_, ?_, fun hnone => hsame.mpr (Or.inl hnone), fun hsign => ?_, hsame⟩
  · obtain ⟨hwidth, hfloat⟩ := FieldKind.width_of_isUnboundedRun hwide
    exact reencode_unbounded hinput hwidth hfloat index raw
  · by_cases hsign : sign = []
    · rw [hsame.mpr (Or.inl hsign), String.toList_ofList]
      exact hshort
    · rw [hraw.unpad_eq, if_neg hsign]
      exact Text.Respells.refl _
  · rw [String.toList_ofList]
    exact hshort
  · rw [String.toList_ofList, Text.SignedDigits.write_of_le_one _ (Nat.le_refl 1),
      ← Text.SignedDigits.write_of_le_one _ (Nat.zero_le 1)]
    exact Text.SignedDigits.isShortest_write_zero hread
  · rw [hraw.unpad_eq, if_neg hsign]

theorem reencode_unbounded_integer_negative :
    Text.IsSigned "-07".toList ['-'] ['0', '7'] ∧
      ∃ text short : String,
        reencode 0 ⟨"z", .float⟩ ⟨"z", .digit .unbounded⟩ "-07" = .ok (.text text) ∧
        reencode 0 ⟨"z", .float⟩ ⟨"z", .integer (.fixed 1)⟩ "-07" = .ok (.text short) ∧
        Text.Respells text.toList "-07".toList ∧ Text.IsShortest short.toList ∧
        text = "-07" ∧ text ≠ short := by
  have hsigned : Text.IsSigned "-07".toList ['-'] ['0', '7'] :=
    ⟨rfl, by simp, by simp, by simp⟩
  obtain ⟨text, short, htext, hshort, hrespells, -, hshortest, -, hkept, hsame⟩ :=
    @reencode_unbounded_integer ⟨"z", .float⟩ ⟨"z", .digit .unbounded⟩ ⟨"z", .integer (.fixed 1)⟩
      rfl rfl rfl 0 "-07" _ _ hsigned
  refine ⟨hsigned, text, short, htext, hshort, hrespells, hshortest, hkept (by decide), ?_⟩
  rw [ne_eq, hsame]
  decide

/-- A float field takes a signed value with leading zeros. It keeps them in a number field without a
width, and loses them in a field of one digit. -/
theorem signed_zeros_stay :
    FieldKind.float.Admits "-07".toList ∧ Text.IsInteger "-07".toList ∧
      reencode 0 ⟨"z", .float⟩ ⟨"z", .digit .unbounded⟩ "-07" = .ok (.text "-07") ∧
      reencode 0 ⟨"z", .float⟩ ⟨"z", .digit (.fixed 1)⟩ "-07" = .ok (.text "-7") := by
  refine ⟨⟨['-'], [], ['0', '7'], rfl, Or.inr (Or.inr rfl), Or.inl rfl, by simp, by simp⟩,
    ⟨['-'], ['0', '7'], rfl, by simp, by simp, by simp⟩, ?_, ?_⟩
  · decide +kernel
  · decide +kernel

/-! ### Values in text fields without a width -/

/-- A value of a number field always goes into a text field without a width. A run of digits becomes
the decimal text of its number there, and so it changes exactly if it has leading zeros; all other
values stay as they are. Two values become the same exactly if both are runs of digits for one
number. -/
theorem reencode_unbounded_text {input output : Field} (hinput : input.kind.isNumeric = true)
    (houtput : output.kind = .character .unbounded) (index : Nat) (raw : String) :
    ∃ text : String, reencode index input output raw = .ok (.text text) ∧
      (Text.isDigitRun raw.toList = true →
        text = String.ofList (Text.digits (Nat.ofDigitChars 10 raw.toList 0))) ∧
      (text = raw ↔
        ¬ (Text.isDigitRun raw.toList = true ∧ Text.HasLeadingZeros raw.toList)) ∧
      ∀ other, reencode index input output other = .ok (.text text) ↔ other = raw ∨
        Text.isDigitRun other.toList = true ∧ Text.isDigitRun raw.toList = true ∧
          Nat.ofDigitChars 10 other.toList 0 = Nat.ofDigitChars 10 raw.toList 0 := by
  have hwrite : ∀ value, reencode index input output value = .ok (.text (Text.unpad value)) :=
    reencode_unbounded hinput (by rw [houtput]; rfl) (by simp [houtput]) index
  refine ⟨Text.unpad raw, hwrite raw, Text.unpad_of_isDigitRun, Text.unpad_eq_self_iff raw, ?_⟩
  intro other
  rw [hwrite, Except.ok.injEq, Segment.text.injEq]
  exact Text.unpad_eq_unpad_iff

theorem reencode_unbounded_text_well :
    ∃ text : String,
      reencode 0 ⟨"well", .digit (.fixed 3)⟩ ⟨"well", .character .unbounded⟩ "007" =
          .ok (.text text) ∧
        text = String.ofList (Text.digits (Nat.ofDigitChars 10 "007".toList 0)) ∧ text ≠ "007" ∧
        reencode 0 ⟨"well", .digit (.fixed 3)⟩ ⟨"well", .character .unbounded⟩ "07" =
          .ok (.text text) := by
  obtain ⟨text, htext, hrun, hself, hsame⟩ := @reencode_unbounded_text
    ⟨"well", .digit (.fixed 3)⟩ ⟨"well", .character .unbounded⟩ rfl rfl 0 "007"
  refine ⟨text, htext, hrun (by decide), ?_, (hsame "07").mpr (Or.inr ?_)⟩
  · rw [ne_eq, hself, not_not]
    decide
  · decide

/-- Two values of one number field become the same text. -/
theorem zeros_lost_in_text :
    (FieldKind.digit .unbounded).Admits "007".toList ∧
      (FieldKind.digit .unbounded).Admits "7".toList ∧
      reencode 0 ⟨"n", .digit .unbounded⟩ ⟨"n", .character .unbounded⟩ "007" = .ok (.text "7") ∧
      reencode 0 ⟨"n", .digit .unbounded⟩ ⟨"n", .character .unbounded⟩ "7" = .ok (.text "7") := by
  refine ⟨⟨List.all_eq_true.mp rfl, by simp⟩, ⟨List.all_eq_true.mp rfl, by simp⟩, ?_, ?_⟩
  · decide +kernel
  · decide +kernel

end PatternRename
