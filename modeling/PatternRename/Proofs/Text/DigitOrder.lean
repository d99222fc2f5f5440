import Mathlib.Algebra.Ring.Nat
import PatternRename.Proofs.Text.Octets
import PatternRename.Proofs.Text.Padding

/-!
# The order of digit runs

Of two runs of digits that are equally long, the one that stands for the lesser number comes first
in the order of octets. So zeros in front, up to one width, make the order of texts that of numbers.

## Main results

- `Utf8.octets_ofList_digits` — a digit has one octet
- `ofDigitChars_lt` — a run stands for a number with no more digits
- `head?_digits_ne_zero` — decimal texts have no zero in front
- `octets_lt_iff_ofDigitChars_lt` — the order of runs that are equally long
-/

namespace PatternRename.Text

/-- A character below 128 has one octet, which is its number. -/
theorem Utf8.utf8EncodeChar_of_toNat_le {c : Char} (h : c.toNat ≤ 127) :
    String.utf8EncodeChar c = [UInt8.ofNat c.toNat] := by
  unfold String.utf8EncodeChar
  exact if_pos h

/-- The octets of digits are their numbers. -/
theorem Utf8.octets_ofList_digits {ds : List Char} (hds : ∀ c ∈ ds, c.isDigit = true) :
    octets (String.ofList ds) = ds.map fun c => UInt8.ofNat c.toNat := by
  rw [octets_eq_flatMap, String.toList_ofList]
  induction ds with
  | nil => rfl
  | cons d ds ih =>
    obtain ⟨hd, hrest⟩ := List.forall_mem_cons.mp hds
    rw [Char.isDigit_iff_toNat] at hd
    have hnine : '9'.toNat = 57 := rfl
    rw [List.flatMap_cons, List.map_cons, ih hrest, utf8EncodeChar_of_toNat_le (by omega)]
    rfl

theorem ofDigitChars_ten_cons (d : Char) (ds : List Char) :
    Nat.ofDigitChars 10 (d :: ds) 0 =
      10 ^ ds.length * (d.toNat - '0'.toNat) + Nat.ofDigitChars 10 ds 0 := by
  rw [Nat.ofDigitChars_cons, Nat.mul_zero, Nat.zero_add, Nat.ofDigitChars_eq_ofDigitChars_zero]

/-- A run of digits stands for a number with no more digits than the run. -/
theorem ofDigitChars_lt {ds : List Char} (hds : ∀ c ∈ ds, c.isDigit = true) :
    Nat.ofDigitChars 10 ds 0 < 10 ^ ds.length := by
  induction ds with
  | nil => exact Nat.one_pos
  | cons d ds ih =>
    obtain ⟨hd, hrest⟩ := List.forall_mem_cons.mp hds
    rw [Char.isDigit_iff_toNat] at hd
    have hzero : '0'.toNat = 48 := rfl
    have hnine : '9'.toNat = 57 := rfl
    have hlead : d.toNat - '0'.toNat ≤ 9 := by omega
    have hless := ih hrest
    have hmul := Nat.mul_le_mul_left (10 ^ ds.length) hlead
    rw [ofDigitChars_ten_cons, List.length_cons, Nat.pow_succ]
    omega

/-- The decimal text of a number other than zero does not begin with a zero. -/
theorem head?_digits_ne_zero {n : Nat} (hn : 0 < n) : (digits n).head? ≠ some '0' := by
  intro hhead
  obtain ⟨rest, hdigits⟩ := List.head?_eq_some_iff.mp hhead
  have hrest : ∀ c ∈ rest, c.isDigit = true := by
    intro c hc
    have hmem : c ∈ digits n := by
      rw [hdigits]
      exact List.mem_cons_of_mem _ hc
    exact isDigit_of_mem_digits hmem
  -- the digits behind the zero would be enough for the number
  have hnumber : n = Nat.ofDigitChars 10 rest 0 := by
    have hread := ofDigitChars_digits n
    rw [hdigits, ofDigitChars_ten_cons, Nat.sub_self, Nat.mul_zero, Nat.zero_add] at hread
    exact hread.symm
  have hless := ofDigitChars_lt hrest
  rw [← hnumber] at hless
  rcases Nat.eq_zero_or_pos rest.length with hnone | hsome
  · rw [hnone] at hless
    omega
  · have hshort := (Nat.length_toDigits_le_iff (b := 10) (by decide) hsome).mpr hless
    change (digits n).length ≤ rest.length at hshort
    rw [hdigits, List.length_cons] at hshort
    omega

/-- The octets of digits are equal, and in order, as what the digits stand for is. -/
theorem ofNat_toNat_compare {c d : Char} (hc : c.isDigit = true) (hd : d.isDigit = true) :
    (UInt8.ofNat c.toNat < UInt8.ofNat d.toNat ↔ c.toNat - '0'.toNat < d.toNat - '0'.toNat) ∧
      (UInt8.ofNat c.toNat = UInt8.ofNat d.toNat ↔ c.toNat - '0'.toNat = d.toNat - '0'.toNat) := by
  rw [Char.isDigit_iff_toNat] at hc hd
  have hzero : '0'.toNat = 48 := rfl
  have hnine : '9'.toNat = 57 := rfl
  rw [UInt8.lt_iff_toNat_lt, ← UInt8.toNat_inj, UInt8.toNat_ofNat', UInt8.toNat_ofNat',
    Nat.mod_eq_of_lt (by omega), Nat.mod_eq_of_lt (by omega)]
  omega

/-- With a digit in front, the greater digit decides, and the rest if the digits are equal. -/
theorem mul_add_lt_mul_add_iff {base a b x y : Nat} (hx : x < base) (hy : y < base) :
    base * a + x < base * b + y ↔ a < b ∨ a = b ∧ x < y := by
  rcases Nat.lt_trichotomy a b with hlt | rfl | hlt
  · have hnext := Nat.mul_le_mul_left base (Nat.succ_le_of_lt hlt)
    rw [Nat.mul_succ] at hnext
    exact iff_of_true (by omega) (Or.inl hlt)
  · rw [Nat.add_lt_add_iff_left]
    simp
  · have hnext := Nat.mul_le_mul_left base (Nat.succ_le_of_lt hlt)
    rw [Nat.mul_succ] at hnext
    exact iff_of_false (by omega) (by omega)

/-- Of runs of digits that are equally long, the lesser one stands for the lesser number. -/
theorem octets_lt_iff_ofDigitChars_lt {ds es : List Char} (hds : ∀ c ∈ ds, c.isDigit = true)
    (hes : ∀ c ∈ es, c.isDigit = true) (hlength : ds.length = es.length) :
    Utf8.octets (String.ofList ds) < Utf8.octets (String.ofList es) ↔
      Nat.ofDigitChars 10 ds 0 < Nat.ofDigitChars 10 es 0 := by
  rw [Utf8.octets_ofList_digits hds, Utf8.octets_ofList_digits hes]
  induction ds generalizing es with
  | nil =>
    obtain rfl := List.eq_nil_of_length_eq_zero hlength.symm
    exact iff_of_false (List.lt_irrefl _) (Nat.lt_irrefl _)
  | cons d ds ih =>
    obtain ⟨e, es, rfl⟩ := List.exists_cons_of_length_eq_add_one hlength.symm
    obtain ⟨hd, hds⟩ := List.forall_mem_cons.mp hds
    obtain ⟨he, hes⟩ := List.forall_mem_cons.mp hes
    rw [List.length_cons, List.length_cons, Nat.add_right_cancel_iff] at hlength
    obtain ⟨hless, hsame⟩ := ofNat_toNat_compare hd he
    have hdsLess := ofDigitChars_lt hds
    have hesLess := ofDigitChars_lt hes
    rw [hlength] at hdsLess
    rw [List.map_cons, List.map_cons, List.cons_lt_cons_iff, ih hds hes hlength, hless, hsame,
      ofDigitChars_ten_cons, ofDigitChars_ten_cons, hlength]
    exact (mul_add_lt_mul_add_iff hdsLess hesLess).symm

end PatternRename.Text
