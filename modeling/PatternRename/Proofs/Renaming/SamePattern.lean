import PatternRename.Proofs.Renaming.RoundTrip

/-!
# Renaming to the same pattern

A value that goes back into the field that it was taken from stays as it is, but for a digit run
in a field without a width: that loses its leading zeros. So a name keeps its text under its own
pattern exactly if no such run in it has leading zeros.

## Main definitions

- `FieldKind.isUnboundedRun` — the fields that take a digit run of any length
- `FieldKind.restore` — a value once it is back in its own field
- `Text.HasLeadingZeros` — a digit run that is more than its number needs

## Main results

- `reencodeAll_self` — all values of a name, back in their own fields
- `Pattern.fill_restoreAll_eq_iff` — a name shows whether one of its values has become shorter
- `Renamer.rename_same_pattern` — a collection under its own pattern
-/

namespace PatternRename

/-! ### Leading zeros -/

/-- A zero stands in front of other digits. -/
def Text.HasLeadingZeros (ds : List Char) : Prop :=
  ds.head? = some '0' ∧ ds ≠ ['0']

instance (ds : List Char) : Decidable (Text.HasLeadingZeros ds) :=
  inferInstanceAs (Decidable (_ ∧ _))

/-- Only leading zeros are taken away, and they always are. -/
theorem Text.stripZeros_eq_self_iff {ds : List Char} (hne : ds ≠ []) :
    stripZeros ds = ds ↔ ¬ HasLeadingZeros ds := by
  obtain ⟨d, rest, rfl⟩ := List.exists_cons_of_ne_nil hne
  rw [HasLeadingZeros, List.head?_cons, Option.some.injEq, not_and_not_right]
  by_cases hd : d = '0'
  · subst hd
    constructor
    · intro hself _
      by_contra hmore
      have hrest : rest ≠ [] := by
        rintro rfl
        exact hmore rfl
      -- the zero in front is gone
      have hle := length_stripZeros_le hrest
      rw [stripZeros_zero_cons] at hself
      rw [hself, List.length_cons] at hle
      omega
    · intro hzero
      rw [hzero rfl]
      rfl
  · rw [stripZeros_cons_of_ne hd]
    exact ⟨fun _ h => absurd h hd, fun _ => rfl⟩

/-! ### A value in its own field -/

namespace FieldKind

/-- Whether the values of a kind are digit runs of any length. -/
def isUnboundedRun : FieldKind → Bool
  | .digit .unbounded => true
  | .integer .unbounded => true
  | _ => false

/-- A value once it is back in a field of its own kind. -/
def restore (kind : FieldKind) (value : String) : String :=
  if kind.isUnboundedRun && !value.toList.isEmpty then
    String.ofList (Text.stripZeros value.toList)
  else value

theorem restore_of_not_isUnboundedRun {kind : FieldKind} (h : kind.isUnboundedRun = false)
    (value : String) : kind.restore value = value := by
  rw [restore, h, Bool.false_and, if_neg Bool.false_ne_true]

theorem restore_of_isUnboundedRun {kind : FieldKind} (h : kind.isUnboundedRun = true)
    {value : String} (hne : value.toList ≠ []) :
    kind.restore value = String.ofList (Text.stripZeros value.toList) := by
  have hempty : value.toList.isEmpty = false := by rwa [List.isEmpty_eq_false_iff]
  rw [restore, h, hempty]
  rfl

theorem restore_of_toList_eq_nil (kind : FieldKind) {value : String} (h : value.toList = []) :
    kind.restore value = value := by
  rw [restore, h, List.isEmpty_nil, Bool.not_true, Bool.and_false, if_neg Bool.false_ne_true]

/-- A value is as it was if it is no digit run of any length, or one without leading zeros. -/
theorem restore_eq_self_iff (kind : FieldKind) (value : String) :
    kind.restore value = value ↔
      (kind.isUnboundedRun = true → ¬ Text.HasLeadingZeros value.toList) := by
  cases hrun : kind.isUnboundedRun with
  | false => simp [restore_of_not_isUnboundedRun hrun]
  | true =>
    by_cases hne : value.toList = []
    · rw [restore_of_toList_eq_nil kind hne, hne]
      simp [Text.HasLeadingZeros]
    · rw [restore_of_isUnboundedRun hrun hne, ← String.toList_inj, String.toList_ofList,
        Text.stripZeros_eq_self_iff hne]
      simp

theorem length_restore_le (kind : FieldKind) (value : String) :
    (kind.restore value).toList.length ≤ value.toList.length := by
  rw [restore]
  split
  · rename_i h
    have hne : value.toList ≠ [] := by
      intro hnil
      simp [hnil] at h
    rw [String.toList_ofList]
    exact Text.length_stripZeros_le hne
  · exact Nat.le_refl _

/-- A value that is not shorter has lost nothing. -/
theorem eq_of_length_restore_eq {kind : FieldKind} {value : String}
    (h : (kind.restore value).toList.length = value.toList.length) :
    kind.restore value = value := by
  cases hrun : kind.isUnboundedRun with
  | false => exact restore_of_not_isUnboundedRun hrun value
  | true =>
    by_cases hne : value.toList = []
    · exact restore_of_toList_eq_nil kind hne
    · rw [restore_of_isUnboundedRun hrun hne] at h ⊢
      rw [String.toList_ofList] at h
      obtain ⟨k, hk⟩ := Text.exists_replicate_append_stripZeros hne
      have hlength := congrArg List.length hk
      rw [List.length_append, List.length_replicate, h, Nat.right_eq_add] at hlength
      rw [hlength, List.replicate_zero, List.nil_append] at hk
      rw [← hk, String.ofList_toList]

end FieldKind

theorem padNumber_unbounded_restore {field raw : String} {kind : FieldKind}
    (hrun : kind.isUnboundedRun = true) (hraw : ∀ c ∈ raw.toList, c.isDigit = true) :
    padNumber field raw .unbounded = .ok (kind.restore raw) := by
  rw [padNumber, FieldKind.restore, hrun, Bool.true_and, Text.isDigitRun,
    List.all_eq_true.mpr hraw, Bool.and_true]

/-- A digit run of the width of its field is written as it is. -/
theorem padNumber_fixed_self {field raw : String} {n : Nat} (hn : 0 < n) (hw : n ≤ Text.maxPadding)
    (hraw : ∀ c ∈ raw.toList, c.isDigit = true) (hlength : raw.toList.length = n) :
    padNumber field raw (.fixed n) = .ok raw := by
  have hne : raw.toList ≠ [] := List.ne_nil_of_length_pos (hlength ▸ hn)
  rw [padNumber_eq_ok_iff_of_digits hraw]
  refine ⟨hne, hw, ?_⟩
  rw [Text.zeroPad_stripZeros hne hlength.le, Text.zeroPad_eq_self hlength, String.ofList_toList]

/-- A value is taken back by its own field. -/
theorem reencode_self {f : Field} {raw : String} (hw : f.kind.width.Paddable)
    (hpos : ∀ n, f.kind.width = .fixed n → 0 < n) (hraw : f.kind.Admits raw.toList) (index : Nat) :
    reencode index f f raw = .ok (.text (f.kind.restore raw)) := by
  obtain ⟨name, kind⟩ := f
  cases kind with
  | float => rfl
  | character w =>
    rw [reencode_of_character rfl rfl, map_eq_ok_iff]
    refine ⟨raw, ?_, by rw [FieldKind.restore_of_not_isUnboundedRun rfl]⟩
    cases w with
    | unbounded => rfl
    | fixed n =>
      rw [justify_fixed_eq_ok_iff, Text.padEnd_eq_self (FieldKind.length_of_admits rfl hraw),
        String.ofList_toList]
      exact ⟨hw n rfl, rfl⟩
  | digit w | integer w =>
    cases w with
    | unbounded =>
      -- the kinds with a letter each are read in the same way
      have hpadded : padNumber name raw .unbounded =
          .ok ((FieldKind.digit .unbounded).restore raw) := padNumber_unbounded_restore rfl hraw.1
      rw [reencode]
      simp only [FieldKind.isTextual, Bool.false_eq_true, if_false, FieldKind.width, hpadded]
      rfl
    | fixed n =>
      rw [reencode_of_isNumeric rfl rfl, padNumber_fixed_self (hpos n rfl) (hw n rfl) hraw.1
        (FieldKind.length_of_admits rfl hraw), FieldKind.restore_of_not_isUnboundedRun rfl]
      rfl

/-! ### All values of a name -/

/-- The values of a name, back in their own fields. -/
def restoreAll (fields : List Field) (values : List String) : List String :=
  List.zipWith (fun f value => f.kind.restore value) fields values

theorem reencodeAll_self {fields : List Field} (hw : ∀ f ∈ fields, f.kind.width.Paddable)
    (hpos : ∀ f ∈ fields, ∀ n, f.kind.width = .fixed n → 0 < n) {values : List String}
    (hvalues : List.Forall₂ (fun (f : Field) (value : String) => f.kind.Admits value.toList)
      fields values) (index : Nat) :
    reencodeAll index (fields.map fun f => (f, f)) values =
      .ok ((restoreAll fields values).map .text) := by
  induction hvalues generalizing index with
  | nil => exact reencodeAll_nil index []
  | @cons f value fields values hvalue _ ih =>
    rw [List.forall_mem_cons] at hw hpos
    rw [List.map_cons, reencodeAll_cons_eq_ok_iff]
    exact ⟨.text (f.kind.restore value), (restoreAll fields values).map .text,
      reencode_self hw.1 hpos.1 hvalue index, ih hw.2 hpos.2 (index + 1), rfl⟩

theorem restoreAll_eq_self_iff {fields : List Field} {values : List String}
    (hlength : fields.length = values.length) :
    restoreAll fields values = values ↔
      ∀ pair ∈ fields.zip values, pair.1.kind.restore pair.2 = pair.2 := by
  induction fields generalizing values with
  | nil =>
    obtain rfl := List.length_eq_zero_iff.mp hlength.symm
    simp [restoreAll]
  | cons f fields ih =>
    obtain ⟨value, later, rfl⟩ := List.exists_cons_of_length_eq_add_one hlength.symm
    rw [restoreAll, List.zipWith_cons_cons, List.cons.injEq, List.zip_cons_cons,
      List.forall_mem_cons, ← ih (Nat.succ.inj hlength), restoreAll]

/-- Values back in their own fields make up a name that is shorter, or they are all as before. -/
theorem Pattern.length_fill_restoreAll {tokens : List Token} {values : List String}
    (hlength : (tokens.filterMap Token.field?).length = values.length) :
    (fill tokens (restoreAll (tokens.filterMap Token.field?) values)).toList.length ≤
        (fill tokens values).toList.length ∧
      ((fill tokens (restoreAll (tokens.filterMap Token.field?) values)).toList.length =
          (fill tokens values).toList.length →
        restoreAll (tokens.filterMap Token.field?) values = values) := by
  induction tokens generalizing values with
  | nil =>
    obtain rfl := List.length_eq_zero_iff.mp hlength.symm
    exact ⟨Nat.le_refl _, fun _ => rfl⟩
  | cons token tokens ih =>
    cases token with
    | literal word =>
      obtain ⟨hle, heq⟩ := ih hlength
      have hfields : (Token.literal word :: tokens).filterMap Token.field? =
          tokens.filterMap Token.field? := List.filterMap_cons_none rfl
      rw [hfields, fill, fill, String.toList_append, String.toList_append, List.length_append,
        List.length_append]
      refine ⟨by omega, fun hsame => heq (by omega)⟩
    | field f =>
      have hfields : (Token.field f :: tokens).filterMap Token.field? =
          f :: tokens.filterMap Token.field? := List.filterMap_cons_some rfl
      rw [hfields] at hlength ⊢
      obtain ⟨value, later, rfl⟩ := List.exists_cons_of_length_eq_add_one hlength.symm
      obtain ⟨hle, heq⟩ := ih (Nat.succ.inj hlength)
      have hvalue := f.kind.length_restore_le value
      rw [restoreAll, List.zipWith_cons_cons, ← restoreAll, fill, fill, String.toList_append,
        String.toList_append, List.length_append, List.length_append]
      refine ⟨by omega, fun hsame => ?_⟩
      rw [heq (by omega), FieldKind.eq_of_length_restore_eq (by omega)]

theorem Pattern.fill_restoreAll_eq_iff {p : Pattern} {values : List String}
    (hlength : p.fields.length = values.length) :
    fill p.tokens (restoreAll p.fields values) = fill p.tokens values ↔
      ∀ pair ∈ p.fields.zip values, pair.1.kind.isUnboundedRun = true →
        ¬ Text.HasLeadingZeros pair.2.toList := by
  have hsame : fill p.tokens (restoreAll p.fields values) = fill p.tokens values ↔
      restoreAll p.fields values = values := by
    constructor
    · intro h
      exact (length_fill_restoreAll hlength).2 (by rw [← fields, h])
    · intro h
      rw [h]
  rw [hsame, restoreAll_eq_self_iff hlength]
  exact forall₂_congr fun pair _ => pair.1.kind.restore_eq_self_iff pair.2

/-! ### A collection under its own pattern -/

namespace Renamer

theorem pairs_of_same {r : Renamer} (hsame : r.output = r.input) :
    r.pairs = r.input.fields.map fun f => (f, f) := by
  rw [pairs, hsame, List.zip, List.zipWith_self]

theorem not_isNumbered_of_same {r : Renamer} (hsame : r.output = r.input) :
    ∀ pair ∈ r.pairs, isNumbered pair = false := by
  intro pair hpair
  rw [pairs_of_same hsame] at hpair
  obtain ⟨f, -, rfl⟩ := List.mem_map.mp hpair
  rw [isNumbered, FieldKind.isNumeric, Bool.and_not_self]

/-- The values of a name that matches are all taken back. -/
theorem reencodeAll_of_same {text : String} {r : Renamer} (hr : Pattern.parse text = .ok r.input)
    (hsame : r.output = r.input) (hw : r.output.Paddable) {source : String} {m : Match}
    (hm : r.input.find source = .ok m) :
    reencodeAll 0 r.pairs m.values = .ok ((restoreAll r.input.fields m.values).map .text) := by
  rw [pairs_of_same hsame]
  apply reencodeAll_self
  · rw [← hsame]
    exact hw
  · exact fun f hf n hn => Pattern.width_pos_of_parse hr hf hn
  · exact (Pattern.Decomposes.of_find hm).fits

/-- The only names that cannot be made are those that do not match. -/
theorem exists_pend_of_same {text : String} {r : Renamer} (hr : Pattern.parse text = .ok r.input)
    (hsame : r.output = r.input) (hw : r.output.Paddable) (source : String) :
    (r.input.isMatch source = true ∧ ∃ name, r.pend source = .ok name ∧ name.source = source) ∨
      r.input.isMatch source = false ∧
        r.pend source = .error (.noMatch r.input.render source) := by
  cases hfind : r.input.find source with
  | ok m =>
    have hpend := pend_eq_ok_iff.mpr
      ⟨m, _, hfind, reencodeAll_of_same hr hsame hw hfind, rfl⟩
    exact Or.inl ⟨Pattern.isMatch_iff.mpr ⟨m, hfind⟩, _, hpend, rfl⟩
  | error failure =>
    obtain ⟨hnone, rfl⟩ := Pattern.find_eq_error_iff.mp hfind
    refine Or.inr ⟨?_, ?_⟩
    · rw [Pattern.isMatch, hnone, Option.isSome_none]
    · rw [pend, hfind]

theorem map_source_pending_of_same {text : String} {r : Renamer}
    (hr : Pattern.parse text = .ok r.input) (hsame : r.output = r.input)
    (hw : r.output.Paddable) (filenames : List String) :
    (pending (r.attempts filenames)).map PendingName.source =
      filenames.filter r.input.isMatch := by
  rw [pending_attempts]
  induction filenames with
  | nil => rfl
  | cons filename rest ih =>
    rcases exists_pend_of_same hr hsame hw filename with
      ⟨hmatch, name, hpend, hsource⟩ | ⟨hmatch, hpend⟩
    · rw [List.filter_cons_of_pos hmatch, List.filterMap_cons_some (b := name) (by rw [hpend]; rfl),
        List.map_cons, hsource, ih]
    · rw [List.filter_cons_of_neg (by simp [hmatch]),
        List.filterMap_cons_none (by rw [hpend]; rfl), ih]

theorem leftOut_of_same {text : String} {r : Renamer}
    (hr : Pattern.parse text = .ok r.input) (hsame : r.output = r.input)
    (hw : r.output.Paddable) (filenames : List String) :
    leftOut (r.attempts filenames) = (filenames.filter fun filename => !r.input.isMatch filename).map
      fun filename => ⟨filename, .noMatch r.input.render filename⟩ := by
  rw [leftOut, attempts]
  induction filenames with
  | nil => rfl
  | cons filename rest ih =>
    rw [List.map_cons]
    rcases exists_pend_of_same hr hsame hw filename with
      ⟨hmatch, name, hpend, hsource⟩ | ⟨hmatch, hpend⟩
    · rw [List.filter_cons_of_neg (by simp [hmatch]),
        List.filterMap_cons_none (by rw [hpend]), ih]
    · rw [List.filter_cons_of_pos (by simp [hmatch]), List.map_cons,
        List.filterMap_cons_some (by rw [hpend]; rfl), ih]

/-- The new name of a file is its old one with the values that have become shorter. -/
theorem target_eq_of_same {text : String} {r : Renamer} (hr : Pattern.parse text = .ok r.input)
    (hsame : r.output = r.input) (hw : r.output.Paddable) {filenames : List String}
    {report : Report} (hreport : r.rename filenames = .ok report) {file : RenamedFile}
    (hfile : file ∈ report.renamed) {m : Match} (hm : r.input.find file.source = .ok m) :
    file.target =
      m.before ++ Pattern.fill r.input.tokens (restoreAll r.input.fields m.values) ++ m.after := by
  have hsource := ((mem_renamed_iff hreport).mp hfile).1
  have htarget : report.target? file.source = some file.target :=
    (target?_eq_some_iff hreport).mpr hfile
  rw [target?_of_texts hreport hsource hm (reencodeAll_of_same hr hsame hw hm),
    Option.some.injEq, hsame] at htarget
  exact htarget.symm

theorem target_eq_source_iff_of_same {text : String} {r : Renamer}
    (hr : Pattern.parse text = .ok r.input) (hsame : r.output = r.input)
    (hw : r.output.Paddable) {filenames : List String}
    {report : Report} (hreport : r.rename filenames = .ok report) {file : RenamedFile}
    (hfile : file ∈ report.renamed) {m : Match} (hm : r.input.find file.source = .ok m) :
    file.target = file.source ↔
      ∀ pair ∈ r.input.fields.zip m.values, pair.1.kind.isUnboundedRun = true →
        ¬ Text.HasLeadingZeros pair.2.toList := by
  have hdecomposes := Pattern.Decomposes.of_find hm
  rw [target_eq_of_same hr hsame hw hreport hfile hm, hdecomposes.text_eq, String.append_left_inj,
    String.append_right_inj]
  exact Pattern.fill_restoreAll_eq_iff hdecomposes.fits.length_eq

/-- Under its own pattern, a collection has a report. Exactly the names that do not match are left
out, and a name is given back exactly if no digit run that it has in a field without a width has
leading zeros. -/
theorem rename_same_pattern {text other : String} {r : Renamer} (hr : ofTexts text other = .ok r)
    (hsame : r.output = r.input) (hw : r.output.Paddable) (filenames : List String) :
    ∃ report, r.rename filenames = .ok report ∧
      report.renamed.map RenamedFile.source = filenames.filter r.input.isMatch ∧
      report.leftOut = (filenames.filter fun filename => !r.input.isMatch filename).map
        (fun filename => ⟨filename, .noMatch r.input.render filename⟩) ∧
      (∀ file ∈ report.renamed, ∃ m, r.input.find file.source = .ok m ∧
        (file.target = file.source ↔
          ∀ pair ∈ r.input.fields.zip m.values, pair.1.kind.isUnboundedRun = true →
            ¬ Text.HasLeadingZeros pair.2.toList)) ∧
      ((∀ f ∈ r.input.fields, f.kind.isUnboundedRun = false) →
        report.renamed = (filenames.filter r.input.isMatch).map fun filename =>
          ⟨filename, filename⟩) := by
  obtain ⟨hinput, -⟩ := ofTexts_eq_ok_iff.mp hr
  obtain ⟨report, hreport⟩ :=
    exists_rename_of_not_isNumbered hw (not_isNumbered_of_same hsame) filenames
  obtain ⟨-, -, hfinish, hleftOut⟩ := rename_eq_ok_iff.mp hreport
  have hsources : report.renamed.map RenamedFile.source = filenames.filter r.input.isMatch := by
    rw [map_source_of_finishAll hfinish, map_source_pending_of_same hinput hsame hw]
  have hkept : ∀ file ∈ report.renamed, ∃ m, r.input.find file.source = .ok m ∧
      (file.target = file.source ↔
        ∀ pair ∈ r.input.fields.zip m.values, pair.1.kind.isUnboundedRun = true →
          ¬ Text.HasLeadingZeros pair.2.toList) := by
    intro file hfile
    have hmatch : file.source ∈ filenames.filter r.input.isMatch := by
      rw [← hsources]
      exact List.mem_map_of_mem hfile
    obtain ⟨m, hm⟩ := Pattern.isMatch_iff.mp (List.mem_filter.mp hmatch).2
    exact ⟨m, hm, target_eq_source_iff_of_same hinput hsame hw hreport hfile hm⟩
  refine ⟨report, hreport, hsources, ?_, hkept, fun hnone => ?_⟩
  · rw [hleftOut, leftOut_of_same hinput hsame hw]
  · rw [← hsources, List.map_map]
    refine (List.map_id report.renamed).symm.trans (List.map_congr_left fun file hfile => ?_)
    obtain ⟨m, hm, hiff⟩ := hkept file hfile
    have htarget : file.target = file.source := by
      apply hiff.mpr
      intro pair hpair hrun
      rw [hnone pair.1 (List.of_mem_zip hpair).1] at hrun
      exact absurd hrun Bool.false_ne_true
    exact congrArg (RenamedFile.mk file.source) htarget

/-- Wells with a row of any length, a column of two digits and a height. -/
def wellHeights : Pattern :=
  ⟨[.literal "x", .field ⟨"row", .digit .unbounded⟩, .literal "y",
    .field ⟨"column", .digit (.fixed 2)⟩, .literal "_", .field ⟨"height", .float⟩]⟩

def wellHeightsRenamer : Renamer where
  input := wellHeights
  output := wellHeights
  fieldCount_eq := rfl
  compiledSize_le := by decide +kernel

theorem rename_same_pattern_wells :
    ofTexts wellHeights.render wellHeights.render = .ok wellHeightsRenamer ∧
      wellHeights.Paddable ∧
      ∃ report, wellHeightsRenamer.rename ["ax07y01_-1.50.tif", "readme", "x0y00_00", "xy12_.5"] =
          .ok report ∧
        report.renamed.map RenamedFile.source = ["ax07y01_-1.50.tif", "x0y00_00", "xy12_.5"] ∧
        report.leftOut = [⟨"readme", .noMatch wellHeights.render "readme"⟩] ∧
        (∀ file ∈ report.renamed, ∃ m, wellHeights.find file.source = .ok m ∧
          (file.target = file.source ↔
            ∀ pair ∈ wellHeights.fields.zip m.values, pair.1.kind.isUnboundedRun = true →
              ¬ Text.HasLeadingZeros pair.2.toList)) ∧
        report.renamed = [⟨"ax07y01_-1.50.tif", "ax7y01_-1.50.tif"⟩, ⟨"x0y00_00", "x0y00_00"⟩,
          ⟨"xy12_.5", "xy12_.5"⟩] := by
  have hparse : Pattern.parse wellHeights.render = .ok wellHeights := by decide +kernel
  have hr : ofTexts wellHeights.render wellHeights.render = .ok wellHeightsRenamer :=
    ofTexts_eq_ok_iff.mpr ⟨hparse, hparse⟩
  have hw : wellHeights.Paddable := by decide
  obtain ⟨report, hreport, hsources, hleftOut, hkept, -⟩ := rename_same_pattern hr rfl hw
    ["ax07y01_-1.50.tif", "readme", "x0y00_00", "xy12_.5"]
  have hrun : wellHeightsRenamer.rename ["ax07y01_-1.50.tif", "readme", "x0y00_00", "xy12_.5"] =
      .ok ⟨[⟨"ax07y01_-1.50.tif", "ax7y01_-1.50.tif"⟩, ⟨"x0y00_00", "x0y00_00"⟩,
        ⟨"xy12_.5", "xy12_.5"⟩], [⟨"readme", .noMatch wellHeights.render "readme"⟩]⟩ := by
    decide +kernel
  have hmatches : ["ax07y01_-1.50.tif", "readme", "x0y00_00", "xy12_.5"].filter wellHeights.isMatch =
      ["ax07y01_-1.50.tif", "x0y00_00", "xy12_.5"] := by
    decide +kernel
  have hothers : ["ax07y01_-1.50.tif", "readme", "x0y00_00", "xy12_.5"].filter
      (fun filename => !wellHeights.isMatch filename) = ["readme"] := by
    decide +kernel
  refine ⟨hr, hw, report, hreport, hsources.trans hmatches, ?_, hkept, ?_⟩
  · exact hleftOut.trans (congrArg (List.map _) hothers)
  · rw [hreport] at hrun
    rw [Except.ok.inj hrun]

end Renamer

end PatternRename
