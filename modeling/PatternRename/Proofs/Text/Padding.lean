import Mathlib.Algebra.Ring.Nat
import Mathlib.Data.List.Basic
import Mathlib.Data.Nat.Log
import PatternRename.Text.Decimal

/-!
# Padding

How many digits a number has is told by its logarithm. Zeros in front of digits and spaces behind a
text add nothing and hide nothing: a run of digits has the same text in a width whether its leading
zeros are taken away first or not, and what is padded can be read off the result.

## Main results

- `log10_eq_log`, `digitCount_eq_length_digits` — the number of digits
- `stripZeros_zeroPad` — the zeros of a padding are taken away again
- `zeroPad_stripZeros` — leading zeros are put back
- `eq_of_zeroPad_digits_eq`, `eq_of_padEnd_eq` — what is padded can be read off
-/

namespace PatternRename.Text

/-! ### The digits of a number -/

theorem isDigit_of_mem_digits {n : Nat} {c : Char} (h : c ∈ digits n) : c.isDigit = true :=
  Nat.isDigit_of_mem_toDigits (by decide) (by decide) h

/-- A number can be read off its digits. -/
theorem ofDigitChars_digits (n : Nat) : Nat.ofDigitChars 10 (digits n) 0 = n :=
  Nat.ofDigitChars_ten_toDigits

theorem log10_eq_log (n : Nat) : log10 n = Nat.log 10 n := by
  induction n using log10.induct with
  | case1 n hlt => rw [log10, if_pos hlt, Nat.log_of_lt hlt]
  | case2 n hle ih =>
    rw [log10, if_neg hle, ih, Nat.log_of_one_lt_of_le (by decide) (Nat.not_lt.mp hle)]

/-- A number takes more digits than a width if it is at least the first number with more. -/
theorem lt_digitCount_iff {n : Nat} (hn : 1 ≤ n) (width : Nat) :
    width < digitCount n ↔ 10 ^ width ≤ n := by
  rw [digitCount, log10_eq_log, Nat.lt_succ_iff,
    Nat.le_log_iff_pow_le (by decide) (Nat.ne_of_gt hn)]

/-- A number has as many digits as are written for it. -/
theorem digitCount_eq_length_digits (n : Nat) : digitCount n = (digits n).length := by
  rcases Nat.eq_zero_or_pos n with rfl | hn
  · rw [digitCount, log10]
    rfl
  · -- both are above the same widths
    refine eq_of_forall_lt_iff fun width => ?_
    rw [lt_digitCount_iff hn]
    rcases Nat.eq_zero_or_pos width with rfl | hwidth
    · exact iff_of_true hn Nat.length_toDigits_pos
    · rw [← Nat.not_lt, ← Nat.length_toDigits_le_iff (by decide) hwidth, Nat.not_le, digits]

/-! ### Leading zeros -/

theorem stripZeros_zero_cons (ds : List Char) : stripZeros ('0' :: ds) = stripZeros ds := rfl

theorem stripZeros_cons_of_ne {d : Char} (hd : d ≠ '0') (ds : List Char) :
    stripZeros (d :: ds) = d :: ds := by
  have hbeq : (d == '0') = false := beq_eq_false_iff_ne.mpr hd
  simp [stripZeros, hbeq]

/-- What is taken away from a run of digits are zeros. -/
theorem exists_replicate_append_stripZeros {ds : List Char} (h : ds ≠ []) :
    ∃ k, ds = List.replicate k '0' ++ stripZeros ds := by
  induction ds with
  | nil => exact absurd rfl h
  | cons d rest ih =>
    by_cases hd : d = '0'
    · subst hd
      by_cases hrest : rest = []
      · -- a single zero stays
        subst hrest
        exact ⟨0, rfl⟩
      · obtain ⟨k, hk⟩ := ih hrest
        refine ⟨k + 1, ?_⟩
        rw [stripZeros_zero_cons, List.replicate_succ, List.cons_append, ← hk]
    · refine ⟨0, ?_⟩
      rw [stripZeros_cons_of_ne hd]
      rfl

theorem length_stripZeros_le {ds : List Char} (hne : ds ≠ []) :
    (stripZeros ds).length ≤ ds.length := by
  obtain ⟨k, hk⟩ := exists_replicate_append_stripZeros hne
  have hlength := congrArg List.length hk
  rw [List.length_append] at hlength
  omega

theorem stripZeros_replicate_append (k : Nat) (ds : List Char) :
    stripZeros (List.replicate k '0' ++ ds) = stripZeros ds := by
  induction k with
  | zero => rfl
  | succ k ih => rw [List.replicate_succ, List.cons_append, stripZeros_zero_cons, ih]

theorem stripZeros_stripZeros (ds : List Char) : stripZeros (stripZeros ds) = stripZeros ds := by
  by_cases hne : ds = []
  · subst hne
    rfl
  · obtain ⟨k, hk⟩ := exists_replicate_append_stripZeros hne
    conv_rhs => rw [hk]
    rw [stripZeros_replicate_append]

theorem stripZeros_zeroPad (width : Nat) (ds : List Char) :
    stripZeros (zeroPad width ds) = stripZeros ds := by
  rw [zeroPad, stripZeros_replicate_append]

/-- Digits that are as many as a width asks for have no more zeros in front. -/
theorem zeroPad_of_le {width : Nat} {ds : List Char} (h : width ≤ ds.length) :
    zeroPad width ds = ds := by
  rw [zeroPad, Nat.sub_eq_zero_of_le h]
  rfl

theorem zeroPad_eq_self {width : Nat} {ds : List Char} (h : ds.length = width) :
    zeroPad width ds = ds :=
  zeroPad_of_le (Nat.le_of_eq h.symm)

/-- In a width that takes all of its digits, a run has its leading zeros back. -/
theorem zeroPad_stripZeros {ds : List Char} (hne : ds ≠ []) {width : Nat}
    (h : ds.length ≤ width) : zeroPad width (stripZeros ds) = zeroPad width ds := by
  obtain ⟨k, hk⟩ := exists_replicate_append_stripZeros hne
  generalize stripZeros ds = rest at hk ⊢
  subst hk
  rw [List.length_append, List.length_replicate] at h
  have hzeros : width - rest.length = width - (k + rest.length) + k := by omega
  rw [zeroPad, zeroPad, List.length_append, List.length_replicate, hzeros, List.replicate_add,
    List.append_assoc]

theorem isDigit_of_mem_zeroPad {ds : List Char} (hds : ∀ c ∈ ds, c.isDigit = true) (width : Nat) :
    ∀ c ∈ zeroPad width ds, c.isDigit = true := by
  intro c hc
  rw [zeroPad, List.mem_append, List.mem_replicate] at hc
  rcases hc with ⟨-, rfl⟩ | hc
  · rfl
  · exact hds c hc

/-! ### What is padded -/

theorem eq_of_zeroPad_eq {width : Nat} {ds es : List Char} (hlength : ds.length = es.length)
    (h : zeroPad width ds = zeroPad width es) : ds = es := by
  rw [zeroPad, zeroPad, hlength] at h
  exact List.append_cancel_left h

/-- The number of padded digits is the one of the digits. -/
theorem ofDigitChars_zeroPad (width : Nat) (ds : List Char) :
    Nat.ofDigitChars 10 (zeroPad width ds) 0 = Nat.ofDigitChars 10 ds 0 := by
  rw [zeroPad, Nat.ofDigitChars_append, Nat.ofDigitChars_replicate_zero, Nat.mul_zero]

/-- Numbers with the same digits are the same. -/
theorem eq_of_digits_eq {a b : Nat} (h : digits a = digits b) : a = b := by
  have hnumber := congrArg (fun ds => Nat.ofDigitChars 10 ds 0) h
  simpa only [ofDigitChars_digits] using hnumber

theorem eq_of_zeroPad_digits_eq {width a b : Nat}
    (h : zeroPad width (digits a) = zeroPad width (digits b)) : a = b := by
  have hnumber := congrArg (fun ds => Nat.ofDigitChars 10 ds 0) h
  simpa only [ofDigitChars_zeroPad, ofDigitChars_digits] using hnumber

theorem eq_of_padEnd_eq {width : Nat} {cs ds : List Char} (hlength : cs.length = ds.length)
    (h : padEnd width cs = padEnd width ds) : cs = ds := by
  rw [padEnd, padEnd] at h
  exact (List.append_inj h hlength).1

theorem padEnd_eq_self {width : Nat} {cs : List Char} (h : cs.length = width) :
    padEnd width cs = cs := by
  rw [padEnd, h, Nat.sub_self]
  exact List.append_nil cs

end PatternRename.Text
