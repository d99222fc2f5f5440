import PatternRename.Proofs.Renaming.Entries
import PatternRename.Proofs.Renaming.FixedWidth
import PatternRename.Proofs.Text.DigitOrder

/-!
# Finished names

A pending name whose values are all numbered is finished exactly if the numbers fit into their
fields. Its texts stay, and each value gives way to the decimal digits of its number. In fields of
one fixed width these texts are in the order of the values.

## Main definitions

- `Numbering.IsNumeral` — decimal digits for a number in a width
- `Numbering.Fits` — values whose numbers fit into their fields
- `Numbering.Puts` — what stands for a segment in a finished name

## Main results

- `Numbering.number_lt_iff` — numbers are in the order of the values
- `Numbering.isNumeral_numberText` — the text of a number in a width
- `Numbering.IsNumeral.octetsLt_iff` — the order of such texts in one fixed width
- `Numbering.finish_outcome` — finished names
-/

namespace PatternRename.Numbering

/-! ### The order of numbers -/

theorem mem_values_of_number? {numbering : Numbering} {value : String} {n : Nat}
    (h : numbering.number? value = some n) : value ∈ numbering.values := by
  by_contra hnot
  rw [number?_eq_none_iff.mpr hnot] at h
  simp at h

theorem exists_number? {numbering : Numbering} {value : String} (h : value ∈ numbering.values) :
    ∃ n, numbering.number? value = some n :=
  ⟨_, number?_eq_some_rank numbering h⟩

theorem number_lt_of_octetsLt {numbering : Numbering} {a b : String} {m n : Nat}
    (hm : numbering.number? a = some m) (hn : numbering.number? b = some n) (h : octetsLt a b) :
    m < n := by
  have ha := mem_values_of_number? hm
  rw [number?_eq_some_rank numbering ha, Option.some.injEq] at hm
  rw [number?_eq_some_rank numbering (mem_values_of_number? hn), Option.some.injEq] at hn
  rw [← hm, ← hn]
  exact rank_lt_rank (List.mem_toFinset.mpr ha) h

/-- Of two numbered values, the lesser one has the lesser number. -/
theorem number_lt_iff {numbering : Numbering} {a b : String} {m n : Nat}
    (hm : numbering.number? a = some m) (hn : numbering.number? b = some n) :
    m < n ↔ octetsLt a b := by
  constructor
  · intro hlt
    by_contra hnot
    by_cases heq : a = b
    · subst heq
      rw [hm, Option.some.injEq] at hn
      omega
    · have hgreater := number_lt_of_octetsLt hn hm (octetsLt_of_not_lt_of_ne hnot heq)
      omega
  · exact number_lt_of_octetsLt hm hn

/-! ### Numbers in a width -/

/-- Decimal digits that stand for a number: as many as a fixed width asks for, and without a zero in
front if the width is not fixed. -/
structure IsNumeral (text : String) (n : Nat) (w : Width) : Prop where
  isDigit : ∀ c ∈ text.toList, c.isDigit = true
  number_eq : Nat.ofDigitChars 10 text.toList 0 = n
  length_eq : ∀ width, w = .fixed width → text.length = width
  head?_ne_zero : w = .unbounded → text.toList.head? ≠ some '0'

/-- The text of a number that fits into its field. -/
theorem isNumeral_numberText {n : Nat} (hn : 1 ≤ n) {w : Width}
    (hfit : ∀ width, w = .fixed width → n < 10 ^ width) : IsNumeral (numberText n w) n w := by
  have hdigits : ∀ c ∈ Text.digits n, c.isDigit = true := fun _ => Text.isDigit_of_mem_digits
  have hread := Text.ofDigitChars_digits n
  cases w with
  | unbounded =>
    refine ⟨?_, ?_, fun width hfixed => Width.noConfusion hfixed, fun _ => ?_⟩
    · rw [numberText, String.toList_ofList]
      exact hdigits
    · rw [numberText, String.toList_ofList, hread]
    · rw [numberText, String.toList_ofList]
      exact Text.head?_digits_ne_zero hn
  | fixed width =>
    have hshort : (Text.digits n).length ≤ width := by
      rw [← Text.digitCount_eq_length_digits, ← Nat.not_lt, Text.lt_digitCount_iff hn, Nat.not_le]
      exact hfit width rfl
    refine ⟨?_, ?_, fun other hother => ?_, fun hnot => Width.noConfusion hnot⟩
    · rw [numberText, String.toList_ofList]
      exact Text.isDigit_of_mem_zeroPad hdigits width
    · rw [numberText, String.toList_ofList, Text.ofDigitChars_zeroPad, hread]
    · obtain rfl := Width.fixed.inj hother
      rw [numberText, String.length_ofList, Text.length_zeroPad]
      exact Nat.max_eq_left hshort

/-- In one fixed width, the text of the lesser number comes first. -/
theorem IsNumeral.octetsLt_iff {s t : String} {m n width : Nat}
    (hs : IsNumeral s m (.fixed width)) (ht : IsNumeral t n (.fixed width)) :
    octetsLt s t ↔ m < n := by
  have hlength : s.toList.length = t.toList.length := by
    rw [String.length_toList, String.length_toList, hs.length_eq width rfl, ht.length_eq width rfl]
  have horder := Text.octets_lt_iff_ofDigitChars_lt hs.isDigit ht.isDigit hlength
  rw [String.ofList_toList, String.ofList_toList, hs.number_eq, ht.number_eq] at horder
  exact horder

/-- A number is written exactly if it fits into its field, which must not be too wide. -/
theorem writeNumber_eq_ok_iff {value text : String} {n : Nat} (hn : 1 ≤ n) {w : Width} :
    writeNumber value n w = .ok text ↔
      (∀ width, w = .fixed width → n < 10 ^ width ∧ width ≤ Text.maxPadding) ∧
        text = numberText n w := by
  cases w with
  | unbounded => simp [writeNumber, numberText, eq_comm]
  | fixed width =>
    have hfits : Text.digitCount n ≤ width ↔ n < 10 ^ width := by
      rw [← Nat.not_lt, Text.lt_digitCount_iff hn, Nat.not_le]
    rw [writeNumber_fixed_eq_ok_iff, hfits, ← and_assoc]
    simp [numberText]

/-! ### Segments -/

/-- The number of a value, if it has one, fits into the field of the value. -/
def Fits (numbering : Numbering) (d : Deferred) : Prop :=
  ∀ width n, d.width = .fixed width → numbering.number? d.raw = some n → n < 10 ^ width

/-- What stands for a segment in a finished name: a text for itself, and decimal digits for a value,
which stand for its number. -/
inductive Puts (numbering : Numbering) : Segment → String → Prop
  | text (known : String) : Puts numbering (.text known) known
  | numeral {d : Deferred} {n : Nat} {text : String} (hn : numbering.number? d.raw = some n)
      (hgives : numbering.Gives (.deferred d) text) (htext : IsNumeral text n d.width) :
      Puts numbering (.deferred d) text

theorem gives_deferred_iff {numbering : Numbering} {d : Deferred} {text : String} :
    numbering.Gives (.deferred d) text ↔
      ∃ n, numbering.number? d.raw = some n ∧ writeNumber d.raw n d.width = .ok text := by
  rw [Gives, segmentText, number]
  cases numbering.number? d.raw <;> simp

theorem puts_of_gives {numbering : Numbering} {segment : Segment} {text : String}
    (h : numbering.Gives segment text) : numbering.Puts segment text := by
  cases segment with
  | text known =>
    obtain rfl := Except.ok.inj h
    exact .text known
  | deferred d =>
    obtain ⟨n, hn, hwrite⟩ := gives_deferred_iff.mp h
    have hpos := one_le_of_number? hn
    obtain ⟨hfits, rfl⟩ := (writeNumber_eq_ok_iff hpos).mp hwrite
    exact .numeral hn h (isNumeral_numberText hpos fun width hfixed => (hfits width hfixed).1)

/-- A numbered value gives a text exactly if its number fits. -/
theorem exists_gives_iff {numbering : Numbering} {d : Deferred} (hd : d.raw ∈ numbering.values)
    (hwidth : ∀ width, d.width = .fixed width → width ≤ Text.maxPadding) :
    (∃ text, numbering.Gives (.deferred d) text) ↔ numbering.Fits d := by
  obtain ⟨n, hn⟩ := exists_number? hd
  have hpos := one_le_of_number? hn
  simp only [gives_deferred_iff, hn, Option.some.injEq, exists_eq_left', writeNumber_eq_ok_iff hpos]
  constructor
  · rintro ⟨text, hfits, -⟩ width m hfixed hm
    obtain rfl := Option.some.inj (hn.symm.trans hm)
    exact (hfits width hfixed).1
  · intro hfits
    exact ⟨_, fun width hfixed => ⟨hfits width n hfixed hn, hwidth width hfixed⟩, rfl⟩

/-- In one fixed width, the text that is put for the lesser value comes first. -/
theorem octetsLt_iff_of_puts {numbering : Numbering} {d e : Deferred} {s t : String} {width : Nat}
    (hd : d.width = .fixed width) (he : e.width = .fixed width)
    (hs : numbering.Puts (.deferred d) s) (ht : numbering.Puts (.deferred e) t) :
    octetsLt s t ↔ octetsLt d.raw e.raw := by
  cases hs with
  | numeral hm _ hs =>
    cases ht with
    | numeral hn _ ht =>
      rw [hd] at hs
      rw [he] at ht
      rw [hs.octetsLt_iff ht, number_lt_iff hm hn]

/-! ### Names -/

theorem exists_finish_iff {numbering : Numbering} {name : PendingName} :
    (∃ target, numbering.finish name = .ok target) ↔
      ∀ segment ∈ name.segments, ∃ text, numbering.Gives segment text := by
  simp only [Gives]
  rw [← exists_mapM_eq_ok_iff, ← segmentTexts_eq_mapM, finish]
  simp only [map_eq_ok_iff]
  constructor
  · rintro ⟨target, texts, htexts, -⟩
    exact ⟨texts, htexts⟩
  · rintro ⟨texts, htexts⟩
    exact ⟨_, texts, htexts, rfl⟩

/-- A name with numbered values is finished exactly if the numbers fit into their fields. Then it
consists of its texts and of the decimal digits of the numbers, as many as a fixed width asks for
and without a zero in front if the width is not fixed. In one fixed width, the texts of any two
values whose numbers fit are in the order of these values. -/
theorem finish_outcome {numbering : Numbering} {name : PendingName}
    (hnumbered : ∀ d, .deferred d ∈ name.segments → d.raw ∈ numbering.values)
    (hwidth : ∀ d, .deferred d ∈ name.segments → ∀ width, d.width = .fixed width →
      width ≤ Text.maxPadding) :
    ((∃ target, numbering.finish name = .ok target) ↔
      ∀ d, .deferred d ∈ name.segments → numbering.Fits d) ∧
    (∀ target, numbering.finish name = .ok target →
      ∃ texts, List.Forall₂ numbering.Puts name.segments texts ∧ target = String.join texts) ∧
    ∀ (d e : Deferred) (width : Nat), d.width = .fixed width → e.width = .fixed width →
      width ≤ Text.maxPadding → d.raw ∈ numbering.values → e.raw ∈ numbering.values →
      numbering.Fits d → numbering.Fits e →
      ∃ s t, numbering.Puts (.deferred d) s ∧ numbering.Puts (.deferred e) t ∧
        (octetsLt s t ↔ octetsLt d.raw e.raw) := by
  refine ⟨?_, fun target h => ?_,
    fun d e width hd he hpadding hdnumbered henumbered hdfits hefits => ?_⟩
  · rw [exists_finish_iff]
    constructor
    · intro h d hd
      exact (exists_gives_iff (hnumbered d hd) (hwidth d hd)).mp (h _ hd)
    · intro h segment hsegment
      cases segment with
      | text known => exact ⟨known, rfl⟩
      | deferred d =>
        exact (exists_gives_iff (hnumbered d hsegment) (hwidth d hsegment)).mpr (h d hsegment)
  · obtain ⟨texts, htexts, rfl⟩ := finish_eq_ok_iff.mp h
    exact ⟨texts, htexts.imp fun _ _ => puts_of_gives, rfl⟩
  · have hput : ∀ v : Deferred, v.width = .fixed width → v.raw ∈ numbering.values →
        numbering.Fits v → ∃ text, numbering.Puts (.deferred v) text := by
      intro v hv hvnumbered hvfits
      have hpaddable : ∀ other, v.width = .fixed other → other ≤ Text.maxPadding := by
        intro other hother
        obtain rfl := Width.fixed.inj (hv.symm.trans hother)
        exact hpadding
      obtain ⟨text, htext⟩ := (exists_gives_iff hvnumbered hpaddable).mpr hvfits
      exact ⟨text, puts_of_gives htext⟩
    obtain ⟨s, hs⟩ := hput d hd hdnumbered hdfits
    obtain ⟨t, ht⟩ := hput e he henumbered hefits
    exact ⟨s, t, hs, ht, octetsLt_iff_of_puts hd he hs ht⟩

theorem finish_outcome_channels :
    (∃ target, (ofValues ["TXRED", "DAPI", "GFP"]).finish ⟨"z7_TXRED_GFP", [.text "z7_",
        .deferred ⟨1, "TXRED", .fixed 3⟩, .text "_", .deferred ⟨2, "GFP", .unbounded⟩]⟩ =
      .ok target) ∧
      ∃ s t, (ofValues ["TXRED", "DAPI", "GFP"]).Puts (.deferred ⟨1, "GFP", .fixed 3⟩) s ∧
        (ofValues ["TXRED", "DAPI", "GFP"]).Puts (.deferred ⟨1, "TXRED", .fixed 3⟩) t ∧
        octetsLt s t := by
  have hvalues : (ofValues ["TXRED", "DAPI", "GFP"]).values = ["DAPI", "GFP", "TXRED"] := by
    decide +kernel
  have htxred : (ofValues ["TXRED", "DAPI", "GFP"]).Fits ⟨1, "TXRED", .fixed 3⟩ := by
    intro width n hfixed hn
    obtain rfl := Width.fixed.inj hfixed
    obtain rfl : 3 = n := Option.some.inj (Eq.trans (by decide +kernel) hn)
    decide
  have hgfp : (ofValues ["TXRED", "DAPI", "GFP"]).Fits ⟨1, "GFP", .fixed 3⟩ := by
    intro width n hfixed hn
    obtain rfl := Width.fixed.inj hfixed
    obtain rfl : 2 = n := Option.some.inj (Eq.trans (by decide +kernel) hn)
    decide
  obtain ⟨hok, -, horder⟩ := @finish_outcome (ofValues ["TXRED", "DAPI", "GFP"])
    ⟨"z7_TXRED_GFP", [.text "z7_", .deferred ⟨1, "TXRED", .fixed 3⟩, .text "_",
      .deferred ⟨2, "GFP", .unbounded⟩]⟩ (by simp [hvalues]) (by simp [Text.maxPadding])
  refine ⟨hok.mpr fun d hd => ?_, ?_⟩
  · simp only [List.mem_cons, Segment.deferred.injEq, reduceCtorEq, List.not_mem_nil, false_or,
      or_false] at hd
    rcases hd with rfl | rfl
    · exact htxred
    · exact fun width n hfixed => Width.noConfusion hfixed
  · obtain ⟨s, t, hs, ht, hiff⟩ := horder ⟨1, "GFP", .fixed 3⟩ ⟨1, "TXRED", .fixed 3⟩ 3 rfl rfl
      (by decide) (by simp [hvalues]) (by simp [hvalues]) hgfp htxred
    exact ⟨s, t, hs, ht, hiff.mpr (by decide)⟩

end PatternRename.Numbering
