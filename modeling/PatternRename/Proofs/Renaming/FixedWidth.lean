import PatternRename.Proofs.Renaming.Reports
import PatternRename.Proofs.Text.Padding
import PatternRename.Proofs.Text.Signs

/-!
# Fields of fixed width

In a field of fixed width, a value has a text of this width unless the value itself is longer, and
different values have different texts. Where all fields of a pattern are like that, new names can
be cut into texts again, so no two names become the same.

## Main definitions

- `Numbering.Renders` — the text that a value has in an output field
- `FieldKind.Separates` — pairs of kinds with texts of one length that tell values apart

## Main results

- `padNumber_eq_ok_iff_of_digits`, `justify_fixed_eq_ok_iff`,
  `Numbering.writeNumber_fixed_eq_ok_iff` — what is written into a field of fixed width
- `Pattern.fill_inj` — texts of known lengths can be read off the name that they make up
- `Renamer.target_ne_of_separates` — names that do not collide
-/

namespace PatternRename

/-! ### What is written into a field of fixed width -/

/-- A digit run is written with its leading zeros replaced by those that its new width asks for. -/
theorem padNumber_eq_ok_iff_of_digits {field raw text : String} {width : Nat}
    (hraw : ∀ c ∈ raw.toList, c.isDigit = true) :
    padNumber field raw (.fixed width) = .ok text ↔
      raw.toList ≠ [] ∧ width ≤ Text.maxPadding ∧
        text = String.ofList (Text.zeroPad width (Text.stripZeros raw.toList)) := by
  by_cases hne : raw.toList = []
  · simp [padNumber, hne, Text.SignedDigits.read?, Text.isDigitRun]
  · rw [padNumber, Text.SignedDigits.read?_of_digits hne hraw]
    have hdigits : (Text.SignedDigits.mk false raw.toList).digitWidth width = width := rfl
    simp only [hdigits]
    by_cases hwide : Text.maxPadding < width
    · have hnot : ¬ width ≤ Text.maxPadding := Nat.not_le.mpr hwide
      simp [hwide, hnot]
    · have hle : width ≤ Text.maxPadding := Nat.not_lt.mp hwide
      rw [if_neg hwide, Except.ok.injEq]
      constructor
      · rintro rfl
        exact ⟨hne, hle, rfl⟩
      · rintro ⟨-, -, rfl⟩
        rfl

theorem justify_fixed_eq_ok_iff {raw text : String} {width : Nat} :
    justify raw (.fixed width) = .ok text ↔
      width ≤ Text.maxPadding ∧ text = String.ofList (Text.padEnd width raw.toList) := by
  rw [justify]
  by_cases hwide : Text.maxPadding < width
  · simp [hwide, Nat.not_le.mpr hwide]
  · simp [hwide, Nat.not_lt.mp hwide, eq_comm]

theorem Numbering.writeNumber_fixed_eq_ok_iff {value text : String} {n width : Nat} :
    writeNumber value n (.fixed width) = .ok text ↔
      Text.digitCount n ≤ width ∧ width ≤ Text.maxPadding ∧
        text = String.ofList (Text.zeroPad width (Text.digits n)) := by
  rw [writeNumber]
  by_cases hlong : width < Text.digitCount n
  · simp [hlong, Nat.not_le.mpr hlong]
  · by_cases hwide : Text.maxPadding < width
    · simp [hlong, hwide, Nat.not_le.mpr hwide]
    · simp [hlong, hwide, Nat.not_lt.mp hlong, Nat.not_lt.mp hwide, eq_comm]

/-- A number goes into all fields but float fields in the same way. -/
theorem reencode_eq_map_padNumber {index : Nat} {input output : Field} {raw : String}
    (hinput : input.kind.isNumeric = true) (hfloat : output.kind ≠ .float) :
    reencode index input output raw =
      (padNumber input.name raw output.kind.width).map .text := by
  have htextual : input.kind.isTextual = false := by
    rw [← Bool.not_eq_true']
    exact hinput
  rw [reencode, htextual]
  cases hkind : output.kind with
  | digit w | integer w | character w => rfl
  | float => exact absurd hkind hfloat

theorem reencode_of_isNumeric {index : Nat} {input output : Field} {raw : String} {width : Nat}
    (hinput : input.kind.isNumeric = true) (houtput : output.kind.width = .fixed width) :
    reencode index input output raw =
      (padNumber input.name raw (.fixed width)).map .text := by
  have hfloat : output.kind ≠ .float := by
    intro hkind
    rw [hkind] at houtput
    exact Width.noConfusion houtput
  rw [reencode_eq_map_padNumber hinput hfloat, houtput]

theorem reencode_of_character {index : Nat} {input output : Field} {raw : String} {w w' : Width}
    (hinput : input.kind = .character w) (houtput : output.kind = .character w') :
    reencode index input output raw = (justify raw w').map .text := by
  rw [reencode, hinput, houtput]
  rfl

/-! ### Pairs of fields that tell values apart -/

/-- The text that a value of the first field has in the second field, once the numbers are
known. -/
def Numbering.Renders (numbering : Numbering) (pair : Field × Field) (raw text : String) : Prop :=
  ∃ index segment, reencode index pair.1 pair.2 raw = .ok segment ∧ numbering.Gives segment text

/-- Pairs of kinds such that the values of the first kind have texts of one length in the second,
and different values different texts. -/
inductive FieldKind.Separates : FieldKind → FieldKind → Prop
  /-- A number of fixed width in a field that is at least as wide. -/
  | number {input output : FieldKind} {n m : Nat} (hinput : input.isNumeric = true)
    (hn : input.width = .fixed n) (hm : output.width = .fixed m) (hle : n ≤ m) :
    Separates input output
  /-- A text of fixed width in a text field of any other. -/
  | text (n m : Nat) : Separates (.character (.fixed n)) (.character (.fixed m))
  /-- Any text in a number field of fixed width. -/
  | numbered (w : Width) {output : FieldKind} {m : Nat} (houtput : output.isNumeric = true)
    (hm : output.width = .fixed m) : Separates (.character w) output

namespace Numbering.Renders

variable {numbering : Numbering} {input output : Field} {raw text : String}

/-- A number of fixed width is written with zeros in front. -/
theorem toList_eq_of_number (h : numbering.Renders (input, output) raw text) {n m : Nat}
    (hinput : input.kind.isNumeric = true) (hn : input.kind.width = .fixed n)
    (hm : output.kind.width = .fixed m) (hle : n ≤ m) (hraw : input.kind.Admits raw.toList) :
    text.toList = Text.zeroPad m raw.toList := by
  obtain ⟨index, segment, hsegment, htext⟩ := h
  obtain ⟨hdigits, hlength⟩ := (FieldKind.admits_iff_of_isNumeric hinput hn).mp hraw
  rw [reencode_of_isNumeric hinput hm, map_eq_ok_iff] at hsegment
  obtain ⟨padded, hpadded, rfl⟩ := hsegment
  obtain ⟨hne, -, rfl⟩ := (padNumber_eq_ok_iff_of_digits hdigits).mp hpadded
  rw [← Except.ok.inj htext, String.toList_ofList]
  exact Text.zeroPad_stripZeros hne (by omega)

/-- A text is written with spaces behind. -/
theorem toList_eq_of_text (h : numbering.Renders (input, output) raw text) {w : Width} {m : Nat}
    (hinput : input.kind = .character w) (houtput : output.kind = .character (.fixed m)) :
    text.toList = Text.padEnd m raw.toList := by
  obtain ⟨index, segment, hsegment, htext⟩ := h
  rw [reencode_of_character hinput houtput, map_eq_ok_iff] at hsegment
  obtain ⟨padded, hpadded, rfl⟩ := hsegment
  obtain ⟨-, rfl⟩ := justify_fixed_eq_ok_iff.mp hpadded
  rw [← Except.ok.inj htext, String.toList_ofList]

/-- A text in a number field is written as its number, which fits, with zeros in front. -/
theorem exists_of_numbered (h : numbering.Renders (input, output) raw text) {w : Width} {m : Nat}
    (hinput : input.kind = .character w) (houtput : output.kind.isNumeric = true)
    (hm : output.kind.width = .fixed m) :
    ∃ n, numbering.number? raw = some n ∧ Text.digitCount n ≤ m ∧
      text.toList = Text.zeroPad m (Text.digits n) := by
  obtain ⟨index, segment, hsegment, htext⟩ := h
  have hnumbered : isNumbered (input, output) = true := by
    rw [isNumbered, Bool.and_eq_true]
    refine ⟨?_, houtput⟩
    rw [hinput]
    rfl
  obtain rfl := reencode_of_isNumbered hnumbered hsegment
  rw [Numbering.Gives, segmentText, number, hm] at htext
  cases hnumber : numbering.number? raw with
  | none => simp [hnumber] at htext
  | some n =>
    simp only [hnumber] at htext
    obtain ⟨hfits, -, rfl⟩ := writeNumber_fixed_eq_ok_iff.mp htext
    exact ⟨n, rfl, hfits, String.toList_ofList⟩

end Numbering.Renders

namespace FieldKind.Separates

variable {numbering : Numbering} {input output : Field} {raw other text textOther : String}

/-- All values have texts of the same length. -/
theorem length_eq (h : Separates input.kind output.kind) (hraw : input.kind.Admits raw.toList)
    (hother : input.kind.Admits other.toList) (htext : numbering.Renders (input, output) raw text)
    (htextOther : numbering.Renders (input, output) other textOther) :
    text.length = textOther.length := by
  rw [← String.length_toList, ← String.length_toList]
  generalize hin : input.kind = kindIn at h
  generalize hout : output.kind = kindOut at h
  cases h with
  | number hinput hn hm hle =>
    subst hin hout
    have hlength := FieldKind.length_of_admits hn hraw
    have hlengthOther := FieldKind.length_of_admits hn hother
    rw [htext.toList_eq_of_number hinput hn hm hle hraw,
      htextOther.toList_eq_of_number hinput hn hm hle hother, Text.length_zeroPad,
      Text.length_zeroPad, hlength, hlengthOther]
  | text n m =>
    rw [hin] at hraw hother
    have hlength := FieldKind.length_of_admits rfl hraw
    have hlengthOther := FieldKind.length_of_admits rfl hother
    rw [htext.toList_eq_of_text hin hout, htextOther.toList_eq_of_text hin hout,
      Text.length_padEnd, Text.length_padEnd, hlength, hlengthOther]
  | numbered w houtput hm =>
    subst hout
    obtain ⟨a, -, hfits, ha⟩ := htext.exists_of_numbered hin houtput hm
    obtain ⟨b, -, hfitsOther, hb⟩ := htextOther.exists_of_numbered hin houtput hm
    rw [Text.digitCount_eq_length_digits] at hfits hfitsOther
    rw [ha, hb, Text.length_zeroPad, Text.length_zeroPad]
    omega

/-- Values with the same text are the same. -/
theorem eq_of_text_eq (h : Separates input.kind output.kind) (hraw : input.kind.Admits raw.toList)
    (hother : input.kind.Admits other.toList) (htext : numbering.Renders (input, output) raw text)
    (htextOther : numbering.Renders (input, output) other text) : raw = other := by
  generalize hin : input.kind = kindIn at h
  generalize hout : output.kind = kindOut at h
  cases h with
  | number hinput hn hm hle =>
    subst hin hout
    have hlength := FieldKind.length_of_admits hn hraw
    have hlengthOther := FieldKind.length_of_admits hn hother
    have heq := htext.toList_eq_of_number hinput hn hm hle hraw
    rw [htextOther.toList_eq_of_number hinput hn hm hle hother] at heq
    rw [← String.toList_inj]
    exact Text.eq_of_zeroPad_eq (hlength.trans hlengthOther.symm) heq.symm
  | text n m =>
    rw [hin] at hraw hother
    have hlength := FieldKind.length_of_admits rfl hraw
    have hlengthOther := FieldKind.length_of_admits rfl hother
    have heq := htext.toList_eq_of_text hin hout
    rw [htextOther.toList_eq_of_text hin hout] at heq
    rw [← String.toList_inj]
    exact Text.eq_of_padEnd_eq (hlength.trans hlengthOther.symm) heq.symm
  | numbered w houtput hm =>
    subst hout
    obtain ⟨a, hnumber, -, ha⟩ := htext.exists_of_numbered hin houtput hm
    obtain ⟨b, hnumberOther, -, hb⟩ := htextOther.exists_of_numbered hin houtput hm
    obtain rfl : a = b := Text.eq_of_zeroPad_digits_eq (ha.symm.trans hb)
    exact Numbering.eq_of_number?_eq hnumber hnumberOther

end FieldKind.Separates

/-! ### Texts along a pattern -/

/-- Texts of known lengths can be read off the name that they make up. -/
theorem Pattern.fill_inj {tokens : List Token} {texts others : List String}
    (hcount : texts.length = (tokens.filterMap Token.field?).length)
    (hlengths : texts.map String.length = others.map String.length)
    (h : fill tokens texts = fill tokens others) : texts = others := by
  induction tokens generalizing texts others with
  | nil =>
    obtain rfl := List.length_eq_zero_iff.mp hcount
    rw [List.map_nil, eq_comm, List.map_eq_nil_iff] at hlengths
    exact hlengths.symm
  | cons token tokens ih =>
    cases token with
    | literal word =>
      rw [fill, fill, ← String.toList_inj, String.toList_append, String.toList_append,
        List.append_cancel_left_eq, String.toList_inj] at h
      exact ih hcount hlengths h
    | field f =>
      have hfield : (Token.field f).field? = some f := rfl
      rw [List.filterMap_cons_some hfield, List.length_cons] at hcount
      obtain ⟨text, later, rfl⟩ := List.exists_cons_of_length_eq_add_one hcount
      cases others with
      | nil => simp at hlengths
      | cons other laterOthers =>
        rw [List.map_cons, List.map_cons, List.cons.injEq] at hlengths
        rw [fill, fill, ← String.toList_inj, String.toList_append, String.toList_append] at h
        obtain ⟨hfirst, hrest⟩ := List.append_inj h (by
          rw [String.length_toList, String.length_toList]
          exact hlengths.1)
        rw [String.toList_inj] at hfirst hrest
        rw [hfirst, ih (Nat.succ.inj hcount) hlengths.2 hrest]

/-- The texts of rewritten values are the ones that the values have in their fields. -/
theorem renders_of_reencodeAll {numbering : Numbering} {index : Nat}
    {pairs : List (Field × Field)} {values : List String} {segments : List Segment}
    {texts : List String} (h : reencodeAll index pairs values = .ok segments)
    (htexts : List.Forall₂ numbering.Gives segments texts) :
    List.Forall₂ (fun value text => numbering.Renders value.1 value.2 text)
      (pairs.zip values) texts := by
  induction pairs generalizing index values segments texts with
  | nil =>
    rw [reencodeAll_nil, Except.ok.injEq] at h
    rw [← h, List.forall₂_nil_left_iff] at htexts
    rw [htexts]
    exact List.Forall₂.nil
  | cons pair pairs ih =>
    cases values with
    | nil =>
      rw [reencodeAll_cons_nil, Except.ok.injEq] at h
      rw [← h, List.forall₂_nil_left_iff] at htexts
      rw [htexts]
      exact List.Forall₂.nil
    | cons raw values =>
      obtain ⟨segment, later, hsegment, hlater, rfl⟩ := reencodeAll_cons_eq_ok_iff.mp h
      obtain ⟨text, laterTexts, htext, hlaterTexts, rfl⟩ := List.forall₂_cons_left_iff.mp htexts
      exact List.Forall₂.cons ⟨index, segment, hsegment, htext⟩ (ih hlater hlaterTexts)

/-- Where all pairs tell values apart, the texts of a name have the lengths that they have in any
other name, and names with the same texts have the same values. -/
theorem texts_of_separates {numbering : Numbering} {pairs : List (Field × Field)}
    (hpairs : ∀ pair ∈ pairs, FieldKind.Separates pair.1.kind pair.2.kind)
    {values others texts textsOther : List String}
    (hvalues : List.Forall₂ (fun pair value => pair.1.kind.Admits value.toList) pairs values)
    (hothers : List.Forall₂ (fun pair value => pair.1.kind.Admits value.toList) pairs others)
    (htexts : List.Forall₂ (fun value text => numbering.Renders value.1 value.2 text)
      (pairs.zip values) texts)
    (htextsOther : List.Forall₂ (fun value text => numbering.Renders value.1 value.2 text)
      (pairs.zip others) textsOther) :
    texts.map String.length = textsOther.map String.length ∧
      (texts = textsOther → values = others) := by
  induction hvalues generalizing others texts textsOther with
  | nil =>
    rw [List.forall₂_nil_left_iff] at hothers
    rw [List.zip_nil_left, List.forall₂_nil_left_iff] at htexts htextsOther
    rw [hothers, htexts, htextsOther]
    exact ⟨rfl, fun _ => rfl⟩
  | @cons pair value pairs values hvalue _ ih =>
    obtain ⟨other, laterOthers, hother, hlaterOthers, rfl⟩ := List.forall₂_cons_left_iff.mp hothers
    obtain ⟨text, later, htext, hlater, rfl⟩ := List.forall₂_cons_left_iff.mp htexts
    obtain ⟨textOther, laterOther, htextOther, hlaterOther, rfl⟩ :=
      List.forall₂_cons_left_iff.mp htextsOther
    obtain ⟨input, output⟩ := pair
    have hpair : FieldKind.Separates input.kind output.kind := hpairs _ List.mem_cons_self
    have hrest := fun pair hpair => hpairs pair (List.mem_cons_of_mem _ hpair)
    obtain ⟨hlengths, hvalues⟩ := ih hrest hlaterOthers hlater hlaterOther
    constructor
    · have hlength := hpair.length_eq hvalue hother htext htextOther
      rw [List.map_cons, List.map_cons, hlength, hlengths]
    · intro heq
      obtain ⟨rfl, rfl⟩ := List.cons.inj heq
      rw [hpair.eq_of_text_eq hvalue hother htext htextOther, hvalues rfl]

namespace Renamer

/-- The values of a match are of the kinds of the input fields. -/
theorem forall₂_pairs_of_find {r : Renamer} {filename : String} {m : Match}
    (h : r.input.find filename = .ok m) :
    List.Forall₂ (fun pair value => pair.1.kind.Admits value.toList) r.pairs m.values := by
  have hfits : List.Forall₂ (fun (f : Field) (value : String) => f.kind.Admits value.toList)
      r.input.fields m.values := (Pattern.Decomposes.of_find h).fits
  rw [← map_fst_pairs, List.forall₂_map_left_iff] at hfits
  exact hfits

/-- A file of a report has the texts of its values along the output pattern. -/
theorem exists_renders_of_mem_renamed {r : Renamer} {filenames : List String} {report : Report}
    (h : r.rename filenames = .ok report) {file : RenamedFile} (hfile : file ∈ report.renamed)
    {m : Match} (hm : r.input.find file.source = .ok m) :
    ∃ texts, texts.length = r.output.fieldCount ∧
      List.Forall₂ (fun value text => (r.numbering filenames).Renders value.1 value.2 text)
        (r.pairs.zip m.values) texts ∧
      file.target = m.before ++ Pattern.fill r.output.tokens texts ++ m.after := by
  obtain ⟨-, name, hpend, htarget⟩ := (mem_renamed_iff h).mp hfile
  have hsource := source_of_pend hpend
  rw [← hsource] at hpend
  obtain ⟨found, segments, texts, hfound, hsegments, htexts, hcount, hname⟩ :=
    exists_texts_of_finish hpend htarget
  rw [hsource, hm, Except.ok.injEq] at hfound
  subst hfound
  refine ⟨texts, ?_, renders_of_reencodeAll hsegments htexts, hname⟩
  rw [hcount, ← length_values_of_find hm, length_pairs]

/-- Where every pair of fields tells values apart, no two files of a collection with the same text
around their matches get the same name. -/
theorem target_ne_of_separates (r : Renamer)
    (hpairs : ∀ pair ∈ r.pairs, FieldKind.Separates pair.1.kind pair.2.kind)
    {filenames : List String} {report : Report} (h : r.rename filenames = .ok report)
    {file other : RenamedFile} (hfile : file ∈ report.renamed) (hother : other ∈ report.renamed)
    (hsource : file.source ≠ other.source) {m mOther : Match}
    (hm : r.input.find file.source = .ok m) (hmOther : r.input.find other.source = .ok mOther)
    (hbefore : m.before = mOther.before) (hafter : m.after = mOther.after) :
    file.target ≠ other.target := by
  intro htarget
  obtain ⟨texts, hcount, htexts, hname⟩ := exists_renders_of_mem_renamed h hfile hm
  obtain ⟨textsOther, -, htextsOther, hnameOther⟩ :=
    exists_renders_of_mem_renamed h hother hmOther
  obtain ⟨hlengths, hvalues⟩ := texts_of_separates hpairs (forall₂_pairs_of_find hm)
    (forall₂_pairs_of_find hmOther) htexts htextsOther
  -- without the same text around them, the names are the same
  have hfill : Pattern.fill r.output.tokens texts = Pattern.fill r.output.tokens textsOther := by
    rw [hname, hnameOther, hbefore, hafter, ← String.toList_inj] at htarget
    simpa only [String.toList_append, List.append_assoc, List.append_cancel_left_eq,
      List.append_cancel_right_eq, String.toList_inj] using htarget
  have htextsEq : texts = textsOther := Pattern.fill_inj hcount hlengths hfill
  -- the sources are made of the same values
  have hdecomposes := Pattern.Decomposes.of_find hm
  have hdecomposesOther := Pattern.Decomposes.of_find hmOther
  apply hsource
  rw [hdecomposes.text_eq, hdecomposesOther.text_eq, hbefore, hafter, hvalues htextsEq]

/-- Rows, wells and channels that become a name without anything between them. -/
def wells : Renamer where
  input := ⟨[.literal "x", .field ⟨"row", .digit (.fixed 2)⟩, .literal "_",
    .field ⟨"well", .character (.fixed 1)⟩, .literal "_",
    .field ⟨"channel", .character .unbounded⟩]⟩
  output := ⟨[.field ⟨"row", .character (.fixed 3)⟩, .field ⟨"well", .character (.fixed 2)⟩,
    .field ⟨"channel", .integer (.fixed 2)⟩]⟩
  fieldCount_eq := rfl
  compiledSize_le := by decide +kernel

theorem target_ne_of_separates_wells :
    wells.rename ["s1x07_A_GFP.tif", "s1x07_A_DAPI.tif"] =
      .ok ⟨[⟨"s1x07_A_GFP.tif", "s1007A 02.tif"⟩, ⟨"s1x07_A_DAPI.tif", "s1007A 01.tif"⟩], []⟩ ∧
    wells.input.find "s1x07_A_GFP.tif" = .ok ⟨"s1", ["07", "A", "GFP"], ".tif"⟩ ∧
    wells.input.find "s1x07_A_DAPI.tif" = .ok ⟨"s1", ["07", "A", "DAPI"], ".tif"⟩ ∧
    "s1007A 02.tif" ≠ "s1007A 01.tif" := by
  have hpairs : ∀ pair ∈ wells.pairs, FieldKind.Separates pair.1.kind pair.2.kind := by
    have hlist : wells.pairs = [(⟨"row", .digit (.fixed 2)⟩, ⟨"row", .character (.fixed 3)⟩),
        (⟨"well", .character (.fixed 1)⟩, ⟨"well", .character (.fixed 2)⟩),
        (⟨"channel", .character .unbounded⟩, ⟨"channel", .integer (.fixed 2)⟩)] := rfl
    rw [hlist, List.forall_mem_cons, List.forall_mem_cons, List.forall_mem_singleton]
    exact ⟨.number rfl rfl rfl (by decide), .text 1 2, .numbered .unbounded rfl rfl⟩
  have h : wells.rename ["s1x07_A_GFP.tif", "s1x07_A_DAPI.tif"] =
      .ok ⟨[⟨"s1x07_A_GFP.tif", "s1007A 02.tif"⟩, ⟨"s1x07_A_DAPI.tif", "s1007A 01.tif"⟩], []⟩ := by
    decide +kernel
  have hm : wells.input.find "s1x07_A_GFP.tif" = .ok ⟨"s1", ["07", "A", "GFP"], ".tif"⟩ := by
    decide +kernel
  have hmOther : wells.input.find "s1x07_A_DAPI.tif" =
      .ok ⟨"s1", ["07", "A", "DAPI"], ".tif"⟩ := by
    decide +kernel
  have hsource : "s1x07_A_GFP.tif" ≠ "s1x07_A_DAPI.tif" := by decide
  have hfile := List.mem_cons_self (a := RenamedFile.mk "s1x07_A_GFP.tif" "s1007A 02.tif")
    (l := [⟨"s1x07_A_DAPI.tif", "s1007A 01.tif"⟩])
  have hother := List.mem_cons_of_mem (RenamedFile.mk "s1x07_A_GFP.tif" "s1007A 02.tif")
    (List.mem_singleton_self (RenamedFile.mk "s1x07_A_DAPI.tif" "s1007A 01.tif"))
  exact ⟨h, hm, hmOther,
    target_ne_of_separates wells hpairs h hfile hother hsource hm hmOther rfl rfl⟩

end Renamer

end PatternRename
