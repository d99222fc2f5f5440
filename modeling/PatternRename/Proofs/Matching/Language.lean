import Mathlib.Data.List.Lex
import PatternRename.Pattern.Matching

/-!
# The values of a kind

A kind of field stands for a set of texts. The lengths that a field may take at the start of a
text are the lengths of the beginnings that are in this set, and they come longest first.

## Main definitions

- `Width.Allows`, `IsDecimal`, `FieldKind.Admits` — the texts that a kind stands for

## Main results

- `FieldKind.admits_iff_of_isNumeric` — the values of a number field of fixed width
- `FieldKind.mem_lengths_iff` — a field may take exactly the beginnings that its kind admits
- `Token.pairwise_lengths` — the lengths that a token may take come longest first
-/

namespace PatternRename

/-! ### The texts of a kind -/

/-- A run of characters of a class, as long as a width says. -/
def Width.Allows (charClass : Char → Bool) (w : Width) (text : List Char) : Prop :=
  (∀ c ∈ text, charClass c = true) ∧ ∀ n, w = .fixed n → text.length = n

/-- A decimal number: an optional sign, an optional whole part with the point behind it, and
digits. The whole part may be empty. -/
def IsDecimal (text : List Char) : Prop :=
  ∃ sign whole ds : List Char, text = sign ++ (whole ++ ds) ∧
    (sign = [] ∨ sign = ['+'] ∨ sign = ['-']) ∧
    (whole = [] ∨ ∃ front : List Char, whole = front ++ ['.'] ∧ ∀ c ∈ front, c.isDigit = true) ∧
    ds ≠ [] ∧ ∀ c ∈ ds, c.isDigit = true

def FieldKind.Admits : FieldKind → List Char → Prop
  | .digit w, text => w.Allows Char.isDigit text
  | .integer w, text => w.Allows Char.isDigit text
  | .character w, text => w.Allows Char.isAlpha text
  | .float, text => IsDecimal text

theorem Width.allows_fixed_iff {charClass : Char → Bool} {n : Nat} {text : List Char} :
    (Width.fixed n).Allows charClass text ↔
      (∀ c ∈ text, charClass c = true) ∧ text.length = n := by
  simp [Allows]

/-- A value of a fixed width has this length. -/
theorem FieldKind.length_of_admits {kind : FieldKind} {n : Nat} (hwidth : kind.width = .fixed n)
    {text : List Char} (h : kind.Admits text) : text.length = n := by
  cases kind with
  | digit w | integer w | character w => exact h.2 n hwidth
  | float => exact Width.noConfusion hwidth

/-- The values of a number field of a fixed width are the digit runs of this length. -/
theorem FieldKind.admits_iff_of_isNumeric {kind : FieldKind} (hkind : kind.isNumeric = true)
    {n : Nat} (hwidth : kind.width = .fixed n) {text : List Char} :
    kind.Admits text ↔ (∀ c ∈ text, c.isDigit = true) ∧ text.length = n := by
  cases kind with
  | digit w | integer w =>
    obtain rfl : w = .fixed n := hwidth
    exact Width.allows_fixed_iff
  | character w => exact absurd hkind Bool.false_ne_true
  | float => exact Width.noConfusion hwidth

/-! ### Runs of a class -/

/-- A run reaches as far as all characters are of its class. -/
theorem le_runLength_iff (charClass : Char → Bool) (text : List Char) (n : Nat) :
    n ≤ runLength charClass text ↔
      n ≤ text.length ∧ ∀ c ∈ text.take n, charClass c = true := by
  induction text generalizing n with
  | nil => cases n <;> simp [runLength]
  | cons c rest ih =>
    cases n with
    | zero => simp
    | succ n =>
      rw [Pattern.runLength_cons]
      by_cases hc : charClass c
      · simp only [hc, if_true, Nat.add_le_add_iff_right, ih, List.length_cons, List.take_succ_cons,
          List.forall_mem_cons, true_and]
      · simp [hc]

theorem runLength_le (charClass : Char → Bool) (text : List Char) :
    runLength charClass text ≤ text.length :=
  ((le_runLength_iff charClass text _).mp le_rfl).1

theorem of_mem_take_runLength {charClass : Char → Bool} {text : List Char} {c : Char}
    (h : c ∈ text.take (runLength charClass text)) : charClass c = true :=
  ((le_runLength_iff charClass text _).mp le_rfl).2 c h

/-- A run that is followed by a character of another class ends there. -/
theorem runLength_append_cons {charClass : Char → Bool} {run : List Char} {c : Char}
    (hrun : ∀ d ∈ run, charClass d = true) (hc : charClass c = false) (rest : List Char) :
    runLength charClass (run ++ c :: rest) = run.length := by
  induction run with
  | nil => simp [runLength, hc]
  | cons d run ih =>
    rw [List.forall_mem_cons] at hrun
    rw [List.cons_append, Pattern.runLength_cons, if_pos hrun.1, ih hrun.2, List.length_cons]

theorem length_le_runLength_append {charClass : Char → Bool} {run : List Char}
    (hrun : ∀ d ∈ run, charClass d = true) (rest : List Char) :
    run.length ≤ runLength charClass (run ++ rest) := by
  rw [le_runLength_iff]
  refine ⟨by simp, ?_⟩
  intro c hc
  rw [List.take_left'] at hc
  · exact hrun c hc
  · rfl

@[simp]
theorem mem_countdown {high low n : Nat} : n ∈ countdown high low ↔ low ≤ n ∧ n ≤ high := by
  rw [countdown, List.mem_reverse, List.mem_range'_1]
  omega

theorem pairwise_countdown (high low : Nat) : (countdown high low).Pairwise (· > ·) := by
  rw [countdown, List.pairwise_reverse]
  exact List.pairwise_lt_range'

theorem Width.mem_lengths_iff {w : Width} {run n : Nat} :
    n ∈ w.lengths run ↔ n ≤ run ∧ ∀ k, w = .fixed k → n = k := by
  cases w with
  | fixed k =>
    rw [Width.lengths]
    split
    · rename_i hk
      simp only [List.mem_singleton, Width.fixed.injEq, forall_eq']
      omega
    · rename_i hk
      simp only [List.not_mem_nil, Width.fixed.injEq, forall_eq', false_iff]
      omega
  | unbounded => simp [Width.lengths]

theorem Width.mem_lengths_runLength_iff (charClass : Char → Bool) (w : Width) (text : List Char)
    (n : Nat) :
    n ∈ w.lengths (runLength charClass text) ↔
      n ≤ text.length ∧ w.Allows charClass (text.take n) := by
  rw [Width.mem_lengths_iff, le_runLength_iff, Width.Allows, and_assoc]
  refine and_congr_right fun hn => and_congr_right fun _ => forall_congr' fun k => ?_
  rw [List.length_take, Nat.min_eq_left hn]

/-! ### Decimal numbers -/

theorem signLength_eq_zero_or_one (text : List Char) :
    signLength text = 0 ∧ text.take (signLength text) = [] ∨
      signLength text = 1 ∧
        (text.take (signLength text) = ['+'] ∨ text.take (signLength text) = ['-']) := by
  unfold signLength
  split <;> simp

theorem signLength_le (text : List Char) : signLength text ≤ text.length := by
  unfold signLength
  split <;> simp

/-- A text that begins with a digit or a point has no sign. -/
theorem signLength_cons_eq_zero {c : Char} (h : c.isDigit = true ∨ c = '.') (rest : List Char) :
    signLength (c :: rest) = 0 := by
  unfold signLength
  split
  · rename_i heq
    obtain ⟨rfl, -⟩ := List.cons.inj heq
    simp at h
  · rename_i heq
    obtain ⟨rfl, -⟩ := List.cons.inj heq
    simp at h
  · rfl

/-- The digits behind a point, or none where there is no point. -/
theorem mem_numberLengths_iff (text : List Char) (n : Nat) :
    n ∈ numberLengths text ↔
      (∃ rest, text.drop (signLength text +
            runLength Char.isDigit (text.drop (signLength text))) = '.' :: rest ∧
          signLength text + runLength Char.isDigit (text.drop (signLength text)) + 2 ≤ n ∧
          n ≤ signLength text + runLength Char.isDigit (text.drop (signLength text)) + 1 +
            runLength Char.isDigit rest) ∨
        signLength text + 1 ≤ n ∧
          n ≤ signLength text + runLength Char.isDigit (text.drop (signLength text)) := by
  simp only [numberLengths, List.mem_append, mem_countdown]
  refine or_congr ?_ Iff.rfl
  split
  · rename_i rest heq
    simp [heq]
  · rename_i hno
    simp only [List.not_mem_nil, false_iff]
    rintro ⟨rest, heq, -⟩
    exact hno rest heq

theorem take_add_of_eq_append {text front back : List Char} {i : Nat} (h : text = front ++ back)
    (hi : front.length = i) (k : Nat) : text.take (i + k) = front ++ back.take k := by
  subst h hi
  exact List.take_length_add_append k

/-- What a field takes as a number is a number. -/
theorem isDecimal_take_of_mem_numberLengths {text : List Char} {n : Nat}
    (h : n ∈ numberLengths text) : IsDecimal (text.take n) := by
  have hsign : text.take (signLength text) = [] ∨ text.take (signLength text) = ['+'] ∨
      text.take (signLength text) = ['-'] := by
    rcases signLength_eq_zero_or_one text with ⟨-, h⟩ | ⟨-, h⟩
    · exact Or.inl h
    · exact Or.inr h
  have hsignLe := signLength_le text
  rw [mem_numberLengths_iff] at h
  -- `s` characters of sign, and `w` digits at the start of `u` behind it
  generalize hs : signLength text = s at h hsign hsignLe
  generalize hu : text.drop s = u at h
  generalize hw : runLength Char.isDigit u = w at h
  have hdigits : ∀ c ∈ u.take w, c.isDigit = true := fun c hc => by
    rw [← hw] at hc
    exact of_mem_take_runLength hc
  have htext : text = text.take s ++ u := by rw [← hu, List.take_append_drop]
  have hwLe : w ≤ u.length := hw ▸ runLength_le Char.isDigit u
  rcases h with ⟨rest, hdrop, hlow, hhigh⟩ | ⟨hlow, hhigh⟩
  · -- the sign, the digits before the point, the point, and digits behind it
    have hrest : u.drop w = '.' :: rest := by rw [← hdrop, ← hu, List.drop_drop]
    have hsplit : text = text.take s ++ (u.take w ++ ['.'] ++ rest) := by
      rw [List.append_assoc, List.singleton_append, ← hrest, List.take_append_drop, ← htext]
    obtain ⟨k, rfl⟩ : ∃ k, n = s + (w + 1) + (k + 1) := ⟨n - s - w - 2, by omega⟩
    have hk : k + 1 ≤ runLength Char.isDigit rest := by omega
    have hkDigits := ((le_runLength_iff _ _ _).mp hk).2
    have hkLe := ((le_runLength_iff _ _ _).mp hk).1
    refine ⟨text.take s, u.take w ++ ['.'], rest.take (k + 1), ?_, hsign,
      Or.inr ⟨u.take w, rfl, hdigits⟩, ?_, hkDigits⟩
    · have hlenSign : (text.take s).length = s := by rw [List.length_take]; omega
      have hlenWhole : (u.take w ++ ['.']).length = w + 1 := by
        rw [List.length_append, List.length_take, Nat.min_eq_left hwLe]; rfl
      rw [Nat.add_assoc, take_add_of_eq_append hsplit hlenSign,
        take_add_of_eq_append rfl hlenWhole]
    · intro hnil
      have := congrArg List.length hnil
      rw [List.length_take, List.length_nil] at this
      omega
  · -- the sign and some of the digits behind it
    obtain ⟨k, rfl⟩ : ∃ k, n = s + (k + 1) := ⟨n - s - 1, by omega⟩
    have hk : k + 1 ≤ runLength Char.isDigit u := by omega
    have hkDigits := ((le_runLength_iff _ _ _).mp hk).2
    refine ⟨text.take s, [], u.take (k + 1), ?_, hsign, Or.inl rfl, ?_, hkDigits⟩
    · rw [List.nil_append, ← hu, List.take_add]
    · intro hnil
      have := congrArg List.length hnil
      rw [List.length_take, List.length_nil] at this
      omega

/-- A number at the start of a text is something that a field takes. -/
theorem length_mem_numberLengths_append {number : List Char} (h : IsDecimal number)
    (rest : List Char) : number.length ∈ numberLengths (number ++ rest) := by
  obtain ⟨sign, whole, ds, rfl, hsign, hwhole, hne, hds⟩ := h
  obtain ⟨d, ds, rfl⟩ := List.exists_cons_of_ne_nil hne
  have hd : d.isDigit = true := hds d List.mem_cons_self
  -- the sign is read as the sign: what follows begins with a digit or a point
  have hlen : signLength (sign ++ (whole ++ d :: ds) ++ rest) = sign.length := by
    rcases hsign with rfl | rfl | rfl
    · rcases hwhole with rfl | ⟨front, rfl, hfront⟩
      · exact signLength_cons_eq_zero (Or.inl hd) _
      · cases front with
        | nil => exact signLength_cons_eq_zero (Or.inr rfl) _
        | cons c front =>
          exact signLength_cons_eq_zero (Or.inl (hfront c List.mem_cons_self)) _
    · rfl
    · rfl
  have hdrop : (sign ++ (whole ++ d :: ds) ++ rest).drop sign.length =
      whole ++ (d :: ds ++ rest) := by
    rw [List.append_assoc, List.drop_left, List.append_assoc]
  rw [mem_numberLengths_iff, hlen, hdrop]
  rcases hwhole with rfl | ⟨front, rfl, hfront⟩
  · -- without a point the run of digits reaches at least as far as the number
    right
    have := length_le_runLength_append hds rest
    simp only [List.nil_append, List.length_append, List.length_cons] at this ⊢
    omega
  · -- the run of digits ends at the point
    left
    have hrun : runLength Char.isDigit (front ++ ['.'] ++ (d :: ds ++ rest)) = front.length := by
      rw [List.append_assoc]
      exact runLength_append_cons hfront (by decide) _
    have hbehind := length_le_runLength_append hds rest
    refine ⟨d :: ds ++ rest, ?_, ?_, ?_⟩
    · rw [hrun, ← List.drop_drop, hdrop, List.append_assoc, List.drop_left]
      rfl
    · rw [hrun]
      simp only [List.length_append, List.length_cons, List.length_nil]
      omega
    · rw [hrun]
      simp only [List.length_append, List.length_cons, List.length_nil] at hbehind ⊢
      omega

/-! ### The lengths of a kind -/

/-- A field may take exactly the beginnings of a text that its kind admits. -/
theorem FieldKind.mem_lengths_iff (kind : FieldKind) (text : List Char) (n : Nat) :
    n ∈ kind.lengths text ↔ n ≤ text.length ∧ kind.Admits (text.take n) := by
  cases kind with
  | digit w => exact Width.mem_lengths_runLength_iff Char.isDigit w text n
  | integer w => exact Width.mem_lengths_runLength_iff Char.isDigit w text n
  | character w => exact Width.mem_lengths_runLength_iff Char.isAlpha w text n
  | float =>
    constructor
    · intro h
      exact ⟨@Token.le_length_of_mem_lengths (.field ⟨"", .float⟩) _ _ h,
        isDecimal_take_of_mem_numberLengths h⟩
    · rintro ⟨hn, h⟩
      have := length_mem_numberLengths_append h (text.drop n)
      rwa [List.take_append_drop, List.length_take, Nat.min_eq_left hn] at this

theorem Width.pairwise_lengths (w : Width) (run : Nat) : (w.lengths run).Pairwise (· > ·) := by
  cases w with
  | fixed n =>
    rw [Width.lengths]
    split <;> simp
  | unbounded => exact pairwise_countdown _ _

theorem pairwise_numberLengths (text : List Char) : (numberLengths text).Pairwise (· > ·) := by
  rw [numberLengths, List.pairwise_append]
  refine ⟨?_, pairwise_countdown _ _, ?_⟩
  · split
    · exact pairwise_countdown _ _
    · exact List.Pairwise.nil
  · intro n hn m hm
    rw [mem_countdown] at hm
    split at hn
    · rw [mem_countdown] at hn
      omega
    · simp at hn

theorem FieldKind.pairwise_lengths (kind : FieldKind) (text : List Char) :
    (kind.lengths text).Pairwise (· > ·) := by
  cases kind with
  | digit w => exact w.pairwise_lengths _
  | integer w => exact w.pairwise_lengths _
  | character w => exact w.pairwise_lengths _
  | float => exact pairwise_numberLengths text

/-- The lengths that a token may take come longest first. -/
theorem Token.pairwise_lengths (token : Token) (text : List Char) :
    (token.lengths text).Pairwise (· > ·) := by
  cases token with
  | literal word =>
    rw [Token.lengths]
    split <;> simp
  | field f => exact f.kind.pairwise_lengths text

/-- A literal takes itself and nothing else. -/
theorem Token.mem_lengths_literal_iff (word : String) (text : List Char) (n : Nat) :
    n ∈ (Token.literal word).lengths text ↔
      n = word.toList.length ∧ ∃ rest, text = word.toList ++ rest := by
  rw [Token.lengths]
  split
  · rename_i hpre
    obtain ⟨rest, rfl⟩ := List.isPrefixOf_iff_prefix.mp hpre
    rw [List.mem_singleton, String.length_toList]
    exact ⟨fun hn => ⟨hn, rest, rfl⟩, fun hn => hn.1⟩
  · rename_i hpre
    simp only [List.not_mem_nil, false_iff, not_and]
    rintro - ⟨rest, rfl⟩
    exact hpre (List.isPrefixOf_iff_prefix.mpr ⟨rest, rfl⟩)

end PatternRename
