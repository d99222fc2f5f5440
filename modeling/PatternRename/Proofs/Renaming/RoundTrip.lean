import Mathlib.Data.List.Zip
import PatternRename.Proofs.Pattern.Parsing
import PatternRename.Proofs.Renaming.FixedWidth

/-!
# Renaming back

A digit run in a field that is at least as wide gains zeros in front and loses them on the way
back, and a text in a field of its own width stays as it is. A name that is made of such values
and literals is cut into the same values again, so the two patterns the other way round undo a
renaming.

## Main definitions

- `FieldKind.Reversible` — pairs of kinds between which values go forth and back

## Main results

- `FieldKind.Reversible.exists_text` — one value, forth and back
- `exists_texts_of_reversible` — all values of a name, forth and back
- `Renamer.rename_back` — a name, forth and back
-/

namespace PatternRename

/-! ### One value forth and back -/

/-- Pairs of kinds between which values go forth and back. -/
inductive FieldKind.Reversible : FieldKind → FieldKind → Prop
  /-- Numbers of fixed width, and others that are at least as wide. -/
  | number {input output : FieldKind} {n m : Nat} (hinput : input.isNumeric = true)
    (houtput : output.isNumeric = true) (hn : input.width = .fixed n)
    (hm : output.width = .fixed m) (hle : n ≤ m) : Reversible input output
  /-- Texts of one width. -/
  | text (n : Nat) : Reversible (.character (.fixed n)) (.character (.fixed n))

namespace FieldKind.Reversible

theorem exists_width {input output : FieldKind} (h : Reversible input output) :
    ∃ n m, input.width = .fixed n ∧ output.width = .fixed m ∧ n ≤ m := by
  cases h with
  | number _ _ hn hm hle => exact ⟨_, _, hn, hm, hle⟩
  | text n => exact ⟨n, n, rfl, rfl, Nat.le_refl n⟩

theorem isTextual_eq {input output : FieldKind} (h : Reversible input output) :
    input.isTextual = output.isTextual := by
  cases h with
  | number hinput houtput _ _ _ =>
    rw [isNumeric, Bool.not_eq_true'] at hinput houtput
    rw [hinput, houtput]
  | text n => rfl

variable {input output : Field} {raw : String}

/-- No text goes into a number, in either direction. -/
theorem not_isNumbered (h : Reversible input.kind output.kind) :
    isNumbered (input, output) = false ∧ isNumbered (output, input) = false := by
  rw [isNumbered, isNumbered, isNumeric, isNumeric, h.isTextual_eq, Bool.and_not_self]
  exact ⟨rfl, rfl⟩

/-- Digits are written with zeros in front, and without them on the way back. -/
theorem exists_text_of_number {n m : Nat} (hinput : input.kind.isNumeric = true)
    (houtput : output.kind.isNumeric = true) (hn : input.kind.width = .fixed n)
    (hm : output.kind.width = .fixed m) (hle : n ≤ m) (hpos : 0 < n) (hw : m ≤ Text.maxPadding)
    (hraw : input.kind.Admits raw.toList) :
    ∃ text : String, output.kind.Admits text.toList ∧
      ∀ index, reencode index input output raw = .ok (.text text) ∧
        reencode index output input text = .ok (.text raw) := by
  obtain ⟨hdigits, hlength⟩ := (FieldKind.admits_iff_of_isNumeric hinput hn).mp hraw
  have hne : raw.toList ≠ [] := List.ne_nil_of_length_pos (hlength ▸ hpos)
  have hpadded : Text.zeroPad m (Text.stripZeros raw.toList) = Text.zeroPad m raw.toList :=
    Text.zeroPad_stripZeros hne (by omega)
  have htextLength : (Text.zeroPad m raw.toList).length = m := by
    rw [Text.length_zeroPad]
    omega
  have htextDigits : ∀ c ∈ Text.zeroPad m raw.toList, c.isDigit = true :=
    Text.isDigit_of_mem_zeroPad hdigits m
  have htextNe : Text.zeroPad m raw.toList ≠ [] :=
    List.ne_nil_of_length_pos (by omega)
  -- what the way back takes away and puts back
  have hback : Text.zeroPad n (Text.stripZeros (Text.zeroPad m raw.toList)) = raw.toList := by
    rw [Text.stripZeros_zeroPad, Text.zeroPad_stripZeros hne hlength.le,
      Text.zeroPad_eq_self hlength]
  refine ⟨String.ofList (Text.zeroPad m raw.toList), ?_, fun index => ⟨?_, ?_⟩⟩
  · rw [FieldKind.admits_iff_of_isNumeric houtput hm, String.toList_ofList]
    exact ⟨htextDigits, htextLength⟩
  · rw [reencode_of_isNumeric hinput hm, map_eq_ok_iff]
    exact ⟨_, (padNumber_eq_ok_iff_of_digits hdigits).mpr ⟨hne, hw, by rw [hpadded]⟩, rfl⟩
  · rw [reencode_of_isNumeric houtput hn, map_eq_ok_iff]
    refine ⟨raw, (padNumber_eq_ok_iff_of_digits ?_).mpr ⟨?_, Nat.le_trans hle hw, ?_⟩, rfl⟩
    · rw [String.toList_ofList]
      exact htextDigits
    · rw [String.toList_ofList]
      exact htextNe
    · rw [String.toList_ofList, hback, String.ofList_toList]

/-- A text of the width of its field is written as it is. -/
theorem reencode_text {n : Nat} (hinput : input.kind = .character (.fixed n))
    (houtput : output.kind = .character (.fixed n)) (hw : n ≤ Text.maxPadding)
    (hraw : input.kind.Admits raw.toList) (index : Nat) :
    reencode index input output raw = .ok (.text raw) := by
  rw [hinput] at hraw
  have hlength : raw.toList.length = n := FieldKind.length_of_admits rfl hraw
  rw [reencode_of_character hinput houtput, map_eq_ok_iff]
  refine ⟨raw, justify_fixed_eq_ok_iff.mpr ⟨hw, ?_⟩, rfl⟩
  rw [Text.padEnd_eq_self hlength, String.ofList_toList]

/-- A value of the input field has a text in the output field that is a value of this field, and
is the text that this value has in the input field. -/
theorem exists_text (h : Reversible input.kind output.kind) (hw : output.kind.width.Paddable)
    (hpos : ∀ n, input.kind.width = .fixed n → 0 < n) (hraw : input.kind.Admits raw.toList) :
    ∃ text : String, output.kind.Admits text.toList ∧
      ∀ index, reencode index input output raw = .ok (.text text) ∧
        reencode index output input text = .ok (.text raw) := by
  generalize hin : input.kind = kindIn at h
  generalize hout : output.kind = kindOut at h
  cases h with
  | number hinput houtput hn hm hle =>
    subst hin hout
    exact exists_text_of_number hinput houtput hn hm hle (hpos _ hn) (hw _ hm) hraw
  | text n =>
    rw [← hout]
    have hle : n ≤ Text.maxPadding := hw n (by rw [hout]; rfl)
    have hadmits : output.kind.Admits raw.toList := by
      rw [hout, ← hin]
      exact hraw
    exact ⟨raw, hadmits, fun index =>
      ⟨reencode_text hin hout hle hraw index, reencode_text hout hin hle hadmits index⟩⟩

end FieldKind.Reversible

/-! ### All values forth and back -/

/-- The values of a name have texts that are values of the output fields, and whose texts in the
input fields are the values again. -/
theorem exists_texts_of_reversible {pairs : List (Field × Field)}
    (hpairs : ∀ pair ∈ pairs, FieldKind.Reversible pair.1.kind pair.2.kind)
    (hw : ∀ pair ∈ pairs, pair.2.kind.width.Paddable)
    (hpos : ∀ pair ∈ pairs, ∀ n, pair.1.kind.width = .fixed n → 0 < n) {values : List String}
    (hvalues : List.Forall₂ (fun pair value => pair.1.kind.Admits value.toList) pairs values) :
    ∃ texts : List String,
      List.Forall₂ (fun pair text => pair.2.kind.Admits text.toList) pairs texts ∧
        ∀ index, reencodeAll index pairs values = .ok (texts.map .text) ∧
          reencodeAll index (pairs.map Prod.swap) texts = .ok (values.map .text) := by
  induction hvalues with
  | nil =>
    refine ⟨[], List.Forall₂.nil, fun index => ⟨?_, ?_⟩⟩
    · exact reencodeAll_nil index []
    · exact reencodeAll_nil index []
  | @cons pair value pairs values hvalue _ ih =>
    obtain ⟨text, htext, hboth⟩ := (hpairs pair List.mem_cons_self).exists_text
      (hw pair List.mem_cons_self) (hpos pair List.mem_cons_self) hvalue
    obtain ⟨texts, htexts, hall⟩ := ih
      (fun other hother => hpairs other (List.mem_cons_of_mem pair hother))
      (fun other hother => hw other (List.mem_cons_of_mem pair hother))
      (fun other hother => hpos other (List.mem_cons_of_mem pair hother))
    refine ⟨text :: texts, List.Forall₂.cons htext htexts, fun index => ⟨?_, ?_⟩⟩
    · rw [reencodeAll_cons_eq_ok_iff]
      exact ⟨.text text, texts.map .text, (hboth index).1, (hall (index + 1)).1, rfl⟩
    · rw [List.map_cons, reencodeAll_cons_eq_ok_iff]
      exact ⟨.text value, values.map .text, (hboth index).2, (hall (index + 1)).2, rfl⟩

namespace Renamer

/-! ### A name forth and back -/

/-- The renamer for two texts has the patterns that are read from them. -/
theorem ofTexts_eq_ok_iff {p q : String} {r : Renamer} :
    ofTexts p q = .ok r ↔ Pattern.parse p = .ok r.input ∧ Pattern.parse q = .ok r.output := by
  rw [ofTexts]
  cases Pattern.parse p with
  | error failure => simp
  | ok input =>
    cases Pattern.parse q with
    | error failure => simp
    | ok output =>
      simp only [ofPatterns, Except.ok.injEq]
      constructor
      · intro h
        split at h
        · split at h
          · rw [← Except.ok.inj h]
            exact ⟨rfl, rfl⟩
          · simp at h
        · simp at h
      · rintro ⟨rfl, rfl⟩
        rw [dif_pos r.fieldCount_eq, dif_pos r.compiledSize_le]

/-- The pairs of fields the other way round. -/
theorem pairs_of_swapped {r back : Renamer} (hinput : back.input = r.output)
    (houtput : back.output = r.input) : back.pairs = r.pairs.map Prod.swap := by
  rw [pairs, pairs, hinput, houtput, List.zip_swap]

/-- The fields of the output pattern take the texts that the pairs of fields take. -/
theorem fits_output {r : Renamer} {texts : List String}
    (h : List.Forall₂ (fun pair text => pair.2.kind.Admits text.toList) r.pairs texts) :
    Pattern.Fits r.output.tokens texts := by
  rw [Pattern.Fits, ← Pattern.fields, ← map_snd_pairs, List.forall₂_map_left_iff]
  exact h

/-- A field of the input pattern is no wider than the one that its values go into. -/
theorem paddable_input {r : Renamer} (hw : r.output.Paddable)
    (hpairs : ∀ pair ∈ r.pairs, FieldKind.Reversible pair.1.kind pair.2.kind) :
    r.input.Paddable := by
  intro f hf width hwidth
  rw [← map_fst_pairs] at hf
  obtain ⟨pair, hpair, rfl⟩ := List.mem_map.mp hf
  obtain ⟨n, m, hn, hm, hle⟩ := (hpairs pair hpair).exists_width
  have hsame : width = n := Width.fixed.inj (hwidth.symm.trans hn)
  have hpadded : m ≤ Text.maxPadding := hw pair.2 (List.of_mem_zip hpair).2 m hm
  omega

/-- A field that a value goes into has a fixed width. -/
theorem exists_width_output {r : Renamer}
    (hpairs : ∀ pair ∈ r.pairs, FieldKind.Reversible pair.1.kind pair.2.kind) :
    ∀ f ∈ r.output.fields, ∃ n, f.kind.width = .fixed n := by
  intro f hf
  rw [← map_snd_pairs] at hf
  obtain ⟨pair, hpair, rfl⟩ := List.mem_map.mp hf
  obtain ⟨n, m, -, hm, -⟩ := (hpairs pair hpair).exists_width
  exact ⟨m, hm⟩

/-- Where all pairs of fields are such that values go forth and back, the two patterns the other
way round give a name back that matches from its beginning. -/
theorem rename_back {p q : String} {r back : Renamer} (hr : ofTexts p q = .ok r)
    (hback : ofTexts q p = .ok back) (hw : r.output.Paddable)
    (hpairs : ∀ pair ∈ r.pairs, FieldKind.Reversible pair.1.kind pair.2.kind)
    {s : String} {m : Match} (hm : r.input.find s = .ok m) (hbefore : m.before = "") :
    ∃ t, (∃ found, r.output.find t = .ok found) ∧
      (∀ filenames, s ∈ filenames →
        ∃ report, r.rename filenames = .ok report ∧ report.target? s = some t) ∧
      (∀ filenames, t ∈ filenames →
        ∃ report, back.rename filenames = .ok report ∧ report.target? t = some s) := by
  obtain ⟨hinput, houtput⟩ := ofTexts_eq_ok_iff.mp hr
  obtain ⟨hinputBack, houtputBack⟩ := ofTexts_eq_ok_iff.mp hback
  have hforth : back.input = r.output := Except.ok.inj (hinputBack.symm.trans houtput)
  have hagain : back.output = r.input := Except.ok.inj (houtputBack.symm.trans hinput)
  have hpairsBack : back.pairs = r.pairs.map Prod.swap := pairs_of_swapped hforth hagain
  have hpos : ∀ pair ∈ r.pairs, ∀ n, pair.1.kind.width = .fixed n → 0 < n := by
    intro pair hpair n hn
    exact Pattern.width_pos_of_parse hinput (List.of_mem_zip hpair).1 hn
  have hwPairs : ∀ pair ∈ r.pairs, pair.2.kind.width.Paddable := by
    intro pair hpair
    exact hw pair.2 (List.of_mem_zip hpair).2
  obtain ⟨texts, htexts, hall⟩ :=
    exists_texts_of_reversible hpairs hwPairs hpos (forall₂_pairs_of_find hm)
  -- the output pattern finds the texts where they were written
  have hfound : r.output.find (Pattern.fill r.output.tokens texts ++ m.after) =
      .ok ⟨"", texts, m.after⟩ := by
    rw [Pattern.find_eq_ok_iff]
    exact Pattern.find?_fill_append (exists_width_output hpairs) (fits_output htexts) m.after
  have hsource : s = Pattern.fill r.input.tokens m.values ++ m.after := by
    have htext := (Pattern.Decomposes.of_find hm).text_eq
    rw [hbefore, String.empty_append] at htext
    exact htext
  refine ⟨Pattern.fill r.output.tokens texts ++ m.after, ⟨_, hfound⟩, ?_, ?_⟩
  · have hnumbered : ∀ pair ∈ r.pairs, isNumbered pair = false := by
      intro pair hpair
      exact (hpairs pair hpair).not_isNumbered.1
    have htarget := exists_target?_of_texts hw hnumbered hm (hall 0).1
    rw [hbefore, String.empty_append] at htarget
    exact htarget
  · have hwBack : back.output.Paddable := by
      rw [hagain]
      exact paddable_input hw hpairs
    have hnumbered : ∀ pair ∈ back.pairs, isNumbered pair = false := by
      intro pair hpair
      rw [hpairsBack] at hpair
      obtain ⟨other, hother, rfl⟩ := List.mem_map.mp hpair
      exact (hpairs other hother).not_isNumbered.2
    have hfoundBack : back.input.find (Pattern.fill r.output.tokens texts ++ m.after) =
        .ok ⟨"", texts, m.after⟩ := by
      rw [hforth]
      exact hfound
    have htextsBack : reencodeAll 0 back.pairs texts = .ok (m.values.map .text) := by
      rw [hpairsBack]
      exact (hall 0).2
    have htarget := exists_target?_of_texts hwBack hnumbered hfoundBack htextsBack
    rw [hagain, String.empty_append, ← hsource] at htarget
    exact htarget

/-- Sites whose rows get a digit more. A literal digit stands before the row, and the column
follows it at once. -/
def sites : Renamer where
  input := ⟨[.literal "x", .field ⟨"row", .digit (.fixed 2)⟩,
    .field ⟨"column", .integer (.fixed 1)⟩, .literal "c",
    .field ⟨"channel", .character (.fixed 1)⟩]⟩
  output := ⟨[.literal "n7", .field ⟨"row", .digit (.fixed 3)⟩,
    .field ⟨"column", .digit (.fixed 1)⟩, .literal "_",
    .field ⟨"channel", .character (.fixed 1)⟩]⟩
  fieldCount_eq := rfl
  compiledSize_le := by decide +kernel

/-- The way back from `sites`. -/
def sitesBack : Renamer where
  input := sites.output
  output := sites.input
  fieldCount_eq := rfl
  compiledSize_le := by decide +kernel

theorem rename_back_sites :
    ofTexts sites.input.render sites.output.render = .ok sites ∧
    ofTexts sites.output.render sites.input.render = .ok sitesBack ∧
    sites.output.Paddable ∧
    sites.input.find "x073cB_7.tif" = .ok ⟨"", ["07", "3", "B"], "_7.tif"⟩ ∧
    sites.rename ["x073cB_7.tif"] = .ok ⟨[⟨"x073cB_7.tif", "n70073_B_7.tif"⟩], []⟩ ∧
    ∃ t, (∃ found, sites.output.find t = .ok found) ∧
      (∀ filenames, "x073cB_7.tif" ∈ filenames →
        ∃ report, sites.rename filenames = .ok report ∧ report.target? "x073cB_7.tif" = some t) ∧
      (∀ filenames, t ∈ filenames →
        ∃ report, sitesBack.rename filenames = .ok report ∧
          report.target? t = some "x073cB_7.tif") := by
  have hinput : Pattern.parse sites.input.render = .ok sites.input := by decide +kernel
  have houtput : Pattern.parse sites.output.render = .ok sites.output := by decide +kernel
  have hr := ofTexts_eq_ok_iff.mpr ⟨hinput, houtput⟩
  have hback : ofTexts sites.output.render sites.input.render = .ok sitesBack :=
    ofTexts_eq_ok_iff.mpr ⟨houtput, hinput⟩
  have hw : sites.output.Paddable := by decide
  have hpairs : ∀ pair ∈ sites.pairs, FieldKind.Reversible pair.1.kind pair.2.kind := by
    have hlist : sites.pairs = [(⟨"row", .digit (.fixed 2)⟩, ⟨"row", .digit (.fixed 3)⟩),
        (⟨"column", .integer (.fixed 1)⟩, ⟨"column", .digit (.fixed 1)⟩),
        (⟨"channel", .character (.fixed 1)⟩, ⟨"channel", .character (.fixed 1)⟩)] := rfl
    rw [hlist, List.forall_mem_cons, List.forall_mem_cons, List.forall_mem_singleton]
    exact ⟨.number rfl rfl rfl rfl (by decide), .number rfl rfl rfl rfl (by decide), .text 1⟩
  have hm : sites.input.find "x073cB_7.tif" = .ok ⟨"", ["07", "3", "B"], "_7.tif"⟩ := by
    decide +kernel
  have hreport : sites.rename ["x073cB_7.tif"] =
      .ok ⟨[⟨"x073cB_7.tif", "n70073_B_7.tif"⟩], []⟩ := by decide +kernel
  exact ⟨hr, hback, hw, hm, hreport, rename_back hr hback hw hpairs hm rfl⟩

end Renamer

end PatternRename
