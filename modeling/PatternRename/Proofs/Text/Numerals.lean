import PatternRename.Proofs.Text.Padding
import PatternRename.Proofs.Text.Signs

/-!
# Numerals

A run of digits stands for a number, and signed digits stand for an integer. Leading zeros are all
that a run of digits can be without: once they are gone it is the decimal text of its number, and
no other text for the same integer is shorter. A plus is not kept when signed digits are written,
and a minus is.

## Main definitions

- `IsInteger` — the texts of signed digits
- `signedValue`, `Denotes` — the integer that a text stands for
- `Respells`, `IsShortest` — texts for one integer, and the shortest one of them
- `Repads` — a text for the same integer in a width

## Main results

- `stripZeros_eq_digits` — digits without leading zeros are the decimal text of their number
- `respells_iff` — one integer is one number behind one minus, or behind none
- `SignedDigits.repads_write` — signed digits are written in a width
- `SignedDigits.write_zeroPad` — what has been written is written as before
-/

namespace PatternRename.Text

/-! ### The number of a run of digits -/

theorem digitChar_of_isDigit {c : Char} (hc : c.isDigit = true) :
    c.toNat - '0'.toNat < 10 ∧ Nat.digitChar (c.toNat - '0'.toNat) = c := by
  rw [Char.isDigit_iff_toNat] at hc
  have hzero : '0'.toNat = 48 := rfl
  have hnine : '9'.toNat = 57 := rfl
  have hlt : c.toNat - '0'.toNat < 10 := by omega
  refine ⟨hlt, Char.toNat_inj.mp ?_⟩
  rw [Nat.toNat_digitChar_of_lt_ten hlt]
  omega

/-- Digits that come behind a number that is not zero come behind its decimal text. -/
theorem digits_ofDigitChars {n : Nat} (hn : 0 < n) {ds : List Char}
    (hds : ∀ c ∈ ds, c.isDigit = true) : digits (Nat.ofDigitChars 10 ds n) = digits n ++ ds := by
  induction ds generalizing n with
  | nil => exact (List.append_nil _).symm
  | cons d ds ih =>
    obtain ⟨hd, hrest⟩ := List.forall_mem_cons.mp hds
    obtain ⟨hlt, hchar⟩ := digitChar_of_isDigit hd
    have hnext : digits (10 * n + (d.toNat - '0'.toNat)) = digits n ++ [d] := by
      rw [digits, ← Nat.toDigits_append_toDigits (by decide) hn hlt, Nat.toDigits_of_lt_base hlt,
        hchar, digits]
    rw [Nat.ofDigitChars_cons, ih (by omega) hrest, hnext, List.append_assoc, List.singleton_append]

/-- Digits without leading zeros are the decimal text of their number. -/
theorem stripZeros_eq_digits {ds : List Char} (hds : ∀ c ∈ ds, c.isDigit = true) :
    stripZeros ds = digits (Nat.ofDigitChars 10 ds 0) := by
  induction ds with
  | nil => rfl
  | cons d ds ih =>
    obtain ⟨hd, hrest⟩ := List.forall_mem_cons.mp hds
    by_cases hzero : d = '0'
    · subst hzero
      rw [stripZeros_zero_cons, ih hrest]
      rfl
    · obtain ⟨hlt, hchar⟩ := digitChar_of_isDigit hd
      have hpos : 0 < d.toNat - '0'.toNat := by
        rw [Nat.pos_iff_ne_zero]
        intro hnone
        rw [hnone] at hchar
        exact hzero hchar.symm
      rw [stripZeros_cons_of_ne hzero, Nat.ofDigitChars_cons, Nat.mul_zero, Nat.zero_add,
        digits_ofDigitChars hpos hrest, digits, Nat.toDigits_of_lt_base hlt, hchar,
        List.singleton_append]

theorem ofDigitChars_stripZeros {ds : List Char} (hds : ∀ c ∈ ds, c.isDigit = true) :
    Nat.ofDigitChars 10 (stripZeros ds) 0 = Nat.ofDigitChars 10 ds 0 := by
  rw [stripZeros_eq_digits hds, ofDigitChars_digits]

theorem isDigit_of_mem_stripZeros {ds : List Char} (hds : ∀ c ∈ ds, c.isDigit = true) :
    ∀ c ∈ stripZeros ds, c.isDigit = true := by
  rw [stripZeros_eq_digits hds]
  exact fun _ => isDigit_of_mem_digits

theorem stripZeros_ne_nil (ds : List Char) : stripZeros ds ≠ [] := by
  rw [stripZeros]
  split <;> simp

/-! ### The integer of signed digits -/

/-- Digits with a sign in front, or with none. -/
def IsInteger (text : List Char) : Prop :=
  ∃ sign run, IsSigned text sign run

/-- The integer of a run of digits behind a sign or nothing. -/
def signedValue (sign run : List Char) : Int :=
  if sign = ['-'] then -(Nat.ofDigitChars 10 run 0 : Int) else Nat.ofDigitChars 10 run 0

/-- A text stands for an integer. -/
def Denotes (text : List Char) (z : Int) : Prop :=
  ∃ sign run, IsSigned text sign run ∧ signedValue sign run = z

/-- Two texts stand for the same integers, both with a minus in front or both without. -/
structure Respells (text other : List Char) : Prop where
  denotes_iff : ∀ z, Denotes text z ↔ Denotes other z
  minus_iff : text.head? = some '-' ↔ other.head? = some '-'

/-- No text for the same integer, with the same minus or without one, is shorter. -/
def IsShortest (text : List Char) : Prop :=
  ∀ other, Respells other text → text.length ≤ other.length

/-- A text in a width for the integer of another text: it has no plus, and it is no longer than the
width unless each text for this integer is. -/
structure Repads (width : Nat) (text other : List Char) : Prop where
  respells : Respells text other
  plus_not_mem : '+' ∉ text
  length_eq : ∃ short, Respells short other ∧ IsShortest short ∧
    text.length = max width short.length

theorem Respells.refl (text : List Char) : Respells text text :=
  ⟨fun _ => Iff.rfl, Iff.rfl⟩

namespace IsSigned

variable {text sign run : List Char}

theorem read?_eq (h : IsSigned text sign run) :
    SignedDigits.read? text = some ⟨decide (sign = ['-']), run⟩ :=
  SignedDigits.read?_eq_some_iff.mpr ⟨sign, run, h, rfl⟩

/-- Signed digits can be read in one way only. -/
theorem unique (h : IsSigned text sign run) {sign' run' : List Char}
    (h' : IsSigned text sign' run') : sign = sign' ∧ run = run' := by
  have hread := Option.some.inj (h.read?_eq.symm.trans h'.read?_eq)
  obtain rfl : run = run' := congrArg SignedDigits.run hread
  exact ⟨List.append_cancel_right (h.eq_append.symm.trans h'.eq_append), rfl⟩

theorem denotes_iff (h : IsSigned text sign run) {z : Int} :
    Denotes text z ↔ signedValue sign run = z := by
  constructor
  · rintro ⟨sign', run', h', hz⟩
    obtain ⟨rfl, rfl⟩ := h.unique h'
    exact hz
  · exact fun hz => ⟨sign, run, h, hz⟩

theorem sign_cases (h : IsSigned text sign run) : sign = [] ∨ sign = ['+'] ∨ sign = ['-'] := by
  simpa using h.sign_mem

/-- All characters but the sign are digits. -/
theorem isDigit_of_mem (h : IsSigned text sign run) {c : Char} (hc : c ∈ text) (hsign : c ∉ sign) :
    c.isDigit = true := by
  rw [h.eq_append, List.mem_append] at hc
  exact h.isDigit c (hc.resolve_left hsign)

theorem head?_eq_minus_iff (h : IsSigned text sign run) :
    text.head? = some '-' ↔ sign = ['-'] := by
  rw [h.eq_append]
  rcases h.sign_cases with rfl | rfl | rfl
  · -- a digit is no minus
    obtain ⟨d, rest, rfl⟩ := List.exists_cons_of_ne_nil h.ne_nil
    have hd : d.isDigit = true := h.isDigit d List.mem_cons_self
    have hminus : d ≠ '-' := by
      rintro rfl
      exact absurd hd (by decide)
    simp [hminus]
  · simp
  · simp

theorem plus_not_mem (h : IsSigned text sign run) (hsign : '+' ∉ sign) : '+' ∉ text :=
  fun hplus => absurd (h.isDigit_of_mem hplus hsign) (by decide)

/-- Signed digits have no point. -/
theorem point_not_mem (h : IsSigned text sign run) : '.' ∉ text := by
  have hsign : '.' ∉ sign := by
    rcases h.sign_cases with rfl | rfl | rfl <;> simp
  exact fun hpoint => absurd (h.isDigit_of_mem hpoint hsign) (by decide)

theorem text_ne_nil (h : IsSigned text sign run) : text ≠ [] := by
  rw [h.eq_append]
  exact List.append_ne_nil_of_right_ne_nil sign h.ne_nil

end IsSigned

theorem isSigned_of_digits {run : List Char} (hne : run ≠ [])
    (hrun : ∀ c ∈ run, c.isDigit = true) : IsSigned run [] run :=
  ⟨rfl, List.mem_cons_self, hne, hrun⟩

/-- A text for the integer of signed digits consists of signed digits. -/
theorem Respells.isInteger {text other : List Char} (h : Respells text other)
    (hother : IsInteger other) : IsInteger text := by
  obtain ⟨sign, run, hsigned⟩ := hother
  obtain ⟨sign', run', hsigned', -⟩ := (h.denotes_iff _).mpr ⟨sign, run, hsigned, rfl⟩
  exact ⟨sign', run', hsigned'⟩

/-- Signed digits stand for one integer with one minus exactly if both have the minus, or neither,
and their digits stand for one number. -/
theorem respells_iff {text sign run other sign' run' : List Char} (h : IsSigned text sign run)
    (h' : IsSigned other sign' run') :
    Respells text other ↔ (sign = ['-'] ↔ sign' = ['-']) ∧
      Nat.ofDigitChars 10 run 0 = Nat.ofDigitChars 10 run' 0 := by
  constructor
  · rintro ⟨hdenotes, hminus⟩
    rw [h.head?_eq_minus_iff, h'.head?_eq_minus_iff] at hminus
    have hvalue : signedValue sign' run' = signedValue sign run :=
      h'.denotes_iff.mp ((hdenotes _).mp (h.denotes_iff.mpr rfl))
    refine ⟨hminus, ?_⟩
    by_cases hsign : sign = ['-']
    · rw [signedValue, signedValue, if_pos hsign, if_pos (hminus.mp hsign)] at hvalue
      omega
    · rw [signedValue, signedValue, if_neg hsign, if_neg (mt hminus.mpr hsign)] at hvalue
      omega
  · rintro ⟨hminus, hnumber⟩
    refine ⟨fun z => ?_, ?_⟩
    · rw [h.denotes_iff, h'.denotes_iff, signedValue, signedValue, hnumber]
      simp only [hminus]
    · rw [h.head?_eq_minus_iff, h'.head?_eq_minus_iff, hminus]

/-! ### Signed digits in a width -/

namespace SignedDigits

variable {text : List Char} {s : SignedDigits}

theorem sign_eq_minus_iff : s.sign = ['-'] ↔ s.negative = true := by
  rw [sign]
  split <;> simp_all

theorem plus_not_mem_sign (s : SignedDigits) : '+' ∉ s.sign := by
  rw [sign]
  split <;> simp

/-- In a width of one digit at most, signed digits have no zeros in front. -/
theorem write_of_le_one (s : SignedDigits) {width : Nat} (h : width ≤ 1) :
    s.write width = s.sign ++ stripZeros s.run := by
  have hpos : 0 < (stripZeros s.run).length := List.length_pos_iff.mpr (stripZeros_ne_nil s.run)
  rw [write, digitWidth, zeroPad_of_le (by omega)]

theorem length_write (s : SignedDigits) (width : Nat) :
    (s.write width).length = max width (s.write 0).length := by
  rw [s.write_of_le_one (Nat.zero_le 1), write, List.length_append, List.length_append,
    length_zeroPad, digitWidth]
  have hpos : 0 < (stripZeros s.run).length := List.length_pos_iff.mpr (stripZeros_ne_nil s.run)
  omega

/-- What is written for signed digits are signed digits, and of the signs only a minus. -/
theorem isSigned_write (h : read? text = some s) (width : Nat) :
    IsSigned (s.write width) s.sign (zeroPad (s.digitWidth width) (stripZeros s.run)) := by
  obtain ⟨sign, run, hsigned, rfl⟩ := read?_eq_some_iff.mp h
  refine ⟨rfl, ?_, ?_, ?_⟩
  · rw [SignedDigits.sign]
    split <;> simp
  · exact List.append_ne_nil_of_right_ne_nil _ (stripZeros_ne_nil run)
  · exact isDigit_of_mem_zeroPad (isDigit_of_mem_stripZeros hsigned.isDigit) _

/-- Signed digits in a width stand for the same integer. -/
theorem respells_write (h : read? text = some s) (width : Nat) : Respells (s.write width) text := by
  have hwrite := isSigned_write h width
  obtain ⟨sign, run, hsigned, rfl⟩ := read?_eq_some_iff.mp h
  rw [respells_iff hwrite hsigned, sign_eq_minus_iff, decide_eq_true_iff]
  exact ⟨Iff.rfl, by rw [ofDigitChars_zeroPad, ofDigitChars_stripZeros hsigned.isDigit]⟩

/-- Without zeros in front, signed digits are as short as they can be. -/
theorem isShortest_write_zero (h : read? text = some s) : IsShortest (s.write 0) := by
  intro other hother
  have hwrite := isSigned_write h 0
  obtain ⟨sign', run', hsigned'⟩ := hother.isInteger ⟨_, _, hwrite⟩
  obtain ⟨hminus, hnumber⟩ := (respells_iff hsigned' hwrite).mp hother
  obtain ⟨sign, run, hsigned, rfl⟩ := read?_eq_some_iff.mp h
  -- both have the same digits once their leading zeros are gone
  have hdigits : stripZeros run' = stripZeros run := by
    rw [ofDigitChars_zeroPad, ofDigitChars_stripZeros hsigned.isDigit] at hnumber
    rw [stripZeros_eq_digits hsigned'.isDigit, stripZeros_eq_digits hsigned.isDigit, hnumber]
  have hrun : (stripZeros run).length ≤ run'.length :=
    hdigits ▸ length_stripZeros_le hsigned'.ne_nil
  have hsign : (SignedDigits.sign ⟨decide (sign = ['-']), run⟩).length ≤ sign'.length := by
    by_cases hnegative : sign' = ['-']
    · exact Nat.le_of_eq (congrArg List.length ((hminus.mp hnegative).trans hnegative.symm))
    · have hnone : ¬ decide (sign = ['-']) = true := by
        rw [← sign_eq_minus_iff (s := ⟨decide (sign = ['-']), run⟩)]
        exact mt hminus.mpr hnegative
      rw [SignedDigits.sign, if_neg hnone]
      exact Nat.zero_le _
  rw [write_of_le_one _ (Nat.zero_le 1), hsigned'.eq_append, List.length_append,
    List.length_append]
  exact Nat.add_le_add hsign hrun

theorem repads_write (h : read? text = some s) (width : Nat) :
    Repads width (s.write width) text where
  respells := respells_write h width
  plus_not_mem := (isSigned_write h width).plus_not_mem s.plus_not_mem_sign
  length_eq := ⟨s.write 0, respells_write h 0, isShortest_write_zero h, s.length_write width⟩

/-- Signed digits that have been written in a width are read with the zeros of this width. -/
theorem read?_write (h : read? text = some s) (width : Nat) : read? (s.write width) =
    some ⟨s.negative, zeroPad (s.digitWidth width) (stripZeros s.run)⟩ := by
  have hsign : decide (s.sign = ['-']) = s.negative := by
    rw [Bool.eq_iff_iff, decide_eq_true_iff, sign_eq_minus_iff]
  rw [(isSigned_write h width).read?_eq, hsign]

/-- What has been written in a width is written in any other as if it had not been. -/
theorem write_zeroPad (s : SignedDigits) (width other : Nat) :
    (SignedDigits.mk s.negative (zeroPad width (stripZeros s.run))).write other = s.write other := by
  rw [write, write, stripZeros_zeroPad, stripZeros_stripZeros]
  rfl

end SignedDigits

end PatternRename.Text
