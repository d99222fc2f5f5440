import PatternRename.Proofs.Pattern.Rendering
import PatternRename.Proofs.Renaming.RoundTrip

/-!
# Paddings that are too wide

Nothing can be padded beyond a certain width, and asking for it ends the renaming of a whole
collection. Values are padded at three places: text and numbers when a name is made, and the
numbers of the collection when it is finished. The renaming ends for this reason exactly if the
first value of some name that is not written asks for too much, or else, when no number is too
long, if a number is to be written into a field that is too wide.

## Main definitions

- `TooWide` — a value that is to be padded too far when its name is made
- `Renamer.StopsAt` — the first value of a name that is not written is too wide
- `Renamer.DemandsTooWide` — a number is to be padded too far

## Main results

- `reencode_eq_tooWide_iff`, `reencodeAll_eq_error_iff` — the values of a name
- `Numbering.finish_eq_error_iff` — the numbers of a name, once the check has passed
- `Renamer.rename_eq_tooWide_iff` — the collections that cannot be renamed for this reason
-/

namespace PatternRename

/-! ### One value -/

/-- A value that is to be padded too far when its name is made: text in a text field, or signed
digits in a field of fixed width, where a minus takes one character of the width. -/
inductive TooWide (input output : Field) (raw : String) : Prop where
  | text {width : Nat} (hinput : input.kind.isTextual = true)
      (houtput : output.kind = .character (.fixed width)) (hwide : Text.maxPadding < width)
  | number {width : Nat} {sign run : List Char} (hinput : input.kind.isNumeric = true)
      (houtput : output.kind.width = .fixed width) (hraw : Text.IsSigned raw.toList sign run)
      (hwide : Text.maxPadding < width - if sign = ['-'] then 1 else 0)

theorem Width.not_paddable_iff {w : Width} :
    ¬ w.Paddable ↔ ∃ width, w = .fixed width ∧ Text.maxPadding < width := by
  simp [Width.Paddable]

theorem justify_eq_tooWide_iff {raw : String} {w : Width} :
    justify raw w = .error .paddingTooWide ↔
      ∃ width, w = .fixed width ∧ Text.maxPadding < width := by
  cases w with
  | unbounded => simp [justify]
  | fixed width => simp [justify]

theorem padNumber_eq_tooWide_iff {field raw : String} {w : Width} :
    padNumber field raw w = .error .paddingTooWide ↔
      ∃ width sign run, w = .fixed width ∧ Text.IsSigned raw.toList sign run ∧
        Text.maxPadding < width - if sign = ['-'] then 1 else 0 := by
  cases w with
  | unbounded => simp [padNumber]
  | fixed width =>
    -- the width that is left for the digits behind a sign
    have hdigits : ∀ sign run : List Char,
        (Text.SignedDigits.mk (decide (sign = ['-'])) run).digitWidth width =
          width - if sign = ['-'] then 1 else 0 := by
      intro sign run
      by_cases hminus : sign = ['-'] <;>
        simp [Text.SignedDigits.digitWidth, Text.SignedDigits.sign, hminus]
    simp only [Width.fixed.injEq, exists_and_left, exists_eq_left']
    constructor
    · intro h
      rw [padNumber] at h
      split at h
      · simp at h
      · rename_i number hread
        obtain ⟨sign, run, hsigned, rfl⟩ := Text.SignedDigits.read?_eq_some_iff.mp hread
        refine ⟨sign, run, hsigned, ?_⟩
        by_contra hnarrow
        rw [hdigits, if_neg hnarrow] at h
        simp at h
    · rintro ⟨sign, run, hsigned, hwide⟩
      rw [padNumber, Text.SignedDigits.read?_eq_some_iff.mpr ⟨sign, run, hsigned, rfl⟩]
      simp only [hdigits, if_pos hwide]

/-- A value is padded too far exactly if it is too wide. -/
theorem reencode_eq_tooWide_iff {index : Nat} {input output : Field} {raw : String} :
    reencode index input output raw = .error .paddingTooWide ↔ TooWide input output raw := by
  rw [reencode]
  by_cases hinput : input.kind.isTextual = true
  · have hnumeric : ¬ input.kind.isNumeric = true := by simp [FieldKind.isNumeric, hinput]
    rw [if_pos hinput]
    constructor
    · intro h
      cases hkind : output.kind with
      | character w =>
        rw [hkind] at h
        obtain ⟨width, rfl, hwide⟩ := justify_eq_tooWide_iff.mp (map_eq_error_iff.mp h)
        exact .text hinput hkind hwide
      | digit w | integer w | float =>
        rw [hkind] at h
        simp only at h
        split at h <;> simp at h
    · rintro (⟨-, houtput, hwide⟩ | ⟨hnot, -, -, -⟩)
      · rw [houtput]
        exact map_eq_error_iff.mpr (justify_eq_tooWide_iff.mpr ⟨_, rfl, hwide⟩)
      · exact absurd hnot hnumeric
  · have hnumeric : input.kind.isNumeric = true := by simpa [FieldKind.isNumeric] using hinput
    rw [if_neg hinput]
    constructor
    · intro h
      cases hkind : output.kind with
      | float => simp [hkind] at h
      | digit w | integer w | character w =>
        rw [hkind] at h
        obtain ⟨width, sign, run, hw, hsigned, hwide⟩ :=
          padNumber_eq_tooWide_iff.mp (map_eq_error_iff.mp h)
        exact .number hnumeric (by rw [hkind]; exact hw) hsigned hwide
    · rintro (⟨htextual, -, -⟩ | ⟨-, houtput, hsigned, hwide⟩)
      · exact absurd htextual hinput
      · have hpad : padNumber input.name raw output.kind.width = .error .paddingTooWide :=
          padNumber_eq_tooWide_iff.mpr ⟨_, _, _, houtput, hsigned, hwide⟩
        cases hkind : output.kind with
        | float => simp [hkind, FieldKind.width] at houtput
        | digit w | integer w | character w =>
          rw [hkind] at hpad
          exact map_eq_error_iff.mpr hpad

/-! ### The values of a name -/

/-- The values of a name cannot be written exactly if one of them cannot and all values before it
can. -/
theorem reencodeAll_eq_error_iff {index : Nat} {pairs : List (Field × Field)}
    {values : List String} {failure : Failure} :
    reencodeAll index pairs values = .error failure ↔
      ∃ k pair raw, pairs[k]? = some pair ∧ values[k]? = some raw ∧
        (∀ j < k, ∀ before value, pairs[j]? = some before → values[j]? = some value →
          ∃ segment, reencode (index + j) before.1 before.2 value = .ok segment) ∧
        reencode (index + k) pair.1 pair.2 raw = .error failure := by
  induction pairs generalizing index values with
  | nil => simp [reencodeAll]
  | cons first pairs ih =>
    cases values with
    | nil => simp [reencodeAll]
    | cons value values =>
      obtain ⟨input, output⟩ := first
      rw [reencodeAll]
      cases hfirst : reencode index input output value with
      | error other =>
        simp only [Except.error.injEq]
        constructor
        · rintro rfl
          exact ⟨0, _, _, rfl, rfl, fun j hj => absurd hj (Nat.not_lt_zero j), hfirst⟩
        · rintro ⟨k, pair, raw, hpair, hraw, hbefore, hfails⟩
          cases k with
          | zero =>
            obtain rfl := Option.some.inj hpair
            obtain rfl := Option.some.inj hraw
            exact Except.error.inj (hfirst.symm.trans hfails)
          | succ k =>
            obtain ⟨segment, hsegment⟩ := hbefore 0 (Nat.succ_pos k) _ _ rfl rfl
            exact absurd (hfirst.symm.trans hsegment) (by simp)
      | ok segment =>
        simp only [map_eq_error_iff, ih]
        have hshift : ∀ j, index + 1 + j = index + (j + 1) := by omega
        constructor
        · rintro ⟨k, pair, raw, hpair, hraw, hbefore, hfails⟩
          refine ⟨k + 1, pair, raw, hpair, hraw, ?_, hshift k ▸ hfails⟩
          intro j hj before other hpairs hvalues
          cases j with
          | zero =>
            obtain rfl := Option.some.inj hpairs
            obtain rfl := Option.some.inj hvalues
            exact ⟨segment, hfirst⟩
          | succ j =>
            exact hshift j ▸ hbefore j (Nat.lt_of_succ_lt_succ hj) before other hpairs hvalues
        · rintro ⟨k, pair, raw, hpair, hraw, hbefore, hfails⟩
          cases k with
          | zero =>
            obtain rfl := Option.some.inj hpair
            obtain rfl := Option.some.inj hraw
            exact absurd (hfirst.symm.trans hfails) (by simp)
          | succ k =>
            refine ⟨k, pair, raw, hpair, hraw, ?_, (hshift k).symm ▸ hfails⟩
            intro j hj before other hpairs hvalues
            have hearlier := hbefore (j + 1) (Nat.succ_lt_succ hj) before other hpairs hvalues
            exact (hshift j).symm ▸ hearlier

/-! ### The numbers of a collection -/

namespace Numbering

/-- A number that is not too long for its field can only be written if the field is not too
wide. -/
theorem writeNumber_eq_error_iff {value : String} {n : Nat} (hn : 1 ≤ n) {w : Width}
    (hfit : ∀ width, w = .fixed width → ¬ 10 ^ width ≤ n) {failure : Failure} :
    writeNumber value n w = .error failure ↔ failure = .paddingTooWide ∧ ¬ w.Paddable := by
  rw [Width.not_paddable_iff]
  cases w with
  | unbounded => simp [writeNumber]
  | fixed width =>
    have hshort : ¬ width < Text.digitCount n :=
      mt (Text.lt_digitCount_iff hn width).mp (hfit width rfl)
    rw [writeNumber, if_neg hshort]
    by_cases hwide : Text.maxPadding < width
    · simp [hwide, eq_comm]
    · simp [hwide]

variable {names : List PendingName} (hcheck : (ofNames names).check names = .ok ())

include hcheck

/-- Once the check has passed, a name can only be finished if none of its numbers stands in a field
that is too wide. -/
theorem finish_eq_error_iff {name : PendingName} (hname : name ∈ names) {failure : Failure} :
    (ofNames names).finish name = .error failure ↔
      failure = .paddingTooWide ∧ ∃ d ∈ name.deferred, ¬ d.width.Paddable := by
  rw [check_eq_ok_iff] at hcheck
  have hsegment : ∀ segment ∈ name.segments, ∀ failure,
      (ofNames names).segmentText segment = .error failure ↔
        failure = .paddingTooWide ∧ ∃ d ∈ segment.deferred?, ¬ d.width.Paddable := by
    intro segment hsegment failure
    cases segment with
    | text known => simp [segmentText, Segment.deferred?]
    | deferred d =>
      have hd := mem_allDeferred hname hsegment
      have hn := number?_ofNames hd
      have hwrite : (ofNames names).segmentText (.deferred d) = .error failure ↔
          failure = .paddingTooWide ∧ ¬ d.width.Paddable := by
        rw [segmentText, number, hn]
        refine writeNumber_eq_error_iff (one_le_rank _ _) ?_
        intro width hfixed hle
        exact hcheck d hd ⟨_, d.raw, width⟩ ⟨rfl, hfixed, hn, hle⟩
      simpa [Segment.deferred?] using hwrite
  rw [finish, map_eq_error_iff, segmentTexts_eq_mapM, mapM_eq_error_iff_of_only hsegment]
  simp only [PendingName.deferred, List.mem_filterMap, Option.mem_def]
  refine and_congr_right' ⟨?_, ?_⟩
  · rintro ⟨segment, hmem, d, hd, hwide⟩
    exact ⟨d, ⟨segment, hmem, hd⟩, hwide⟩
  · rintro ⟨d, ⟨segment, hmem, hd⟩, hwide⟩
    exact ⟨segment, hmem, d, hd, hwide⟩

end Numbering

namespace Renamer

variable {r : Renamer} {filenames : List String}

/-- Once the check has passed, the names of a collection can only be finished if no number stands
in a field that is too wide. -/
theorem finishAll_eq_error_iff {names : List PendingName}
    (hcheck : (Numbering.ofNames names).check names = .ok ()) {failure : Failure} :
    finishAll (Numbering.ofNames names) names = .error failure ↔
      failure = .paddingTooWide ∧ ∃ name ∈ names, ∃ d ∈ name.deferred, ¬ d.width.Paddable := by
  rw [finishAll_eq_mapM]
  refine mapM_eq_error_iff_of_only fun name hname other => ?_
  rw [finishFile, map_eq_error_iff, Numbering.finish_eq_error_iff hcheck hname]

/-- A name that is matched and whose first value that cannot be written is too wide. -/
def StopsAt (r : Renamer) (filename : String) : Prop :=
  ∃ found k input output raw, r.input.find filename = .ok found ∧
    r.pairs[k]? = some (input, output) ∧ found.values[k]? = some raw ∧
    (∀ j < k, ∀ before value, r.pairs[j]? = some before → found.values[j]? = some value →
      ∃ segment, reencode j before.1 before.2 value = .ok segment) ∧
    TooWide input output raw

/-- A number is to be written into a field that is too wide, in a name that can be made. -/
def DemandsTooWide (r : Renamer) (filename : String) : Prop :=
  (∃ name, r.pend filename = .ok name) ∧
    ∃ value width, (value, Width.fixed width) ∈ r.demands filename ∧ Text.maxPadding < width

theorem pend_eq_tooWide_iff {filename : String} :
    r.pend filename = .error .paddingTooWide ↔ r.StopsAt filename := by
  rw [pend]
  cases hfind : r.input.find filename with
  | error failure =>
    have hmatch := (Pattern.find_eq_error_iff.mp hfind).2
    simp [StopsAt, hfind, hmatch]
  | ok found =>
    simp only [StopsAt, hfind, Except.ok.injEq, exists_and_left, exists_eq_left', reencodeMatch,
      map_eq_error_iff, reencodeAll_eq_error_iff, Nat.zero_add, reencode_eq_tooWide_iff]
    constructor
    · rintro ⟨k, ⟨input, output⟩, hpair, raw, hraw, hbefore, hwide⟩
      exact ⟨k, input, output, hpair, raw, hraw, hbefore, hwide⟩
    · rintro ⟨k, input, output, hpair, raw, hraw, hbefore, hwide⟩
      exact ⟨k, (input, output), hpair, raw, hraw, hbefore, hwide⟩

/-- A collection is stopped before its values are numbered exactly if one of its names stops. -/
theorem firstStop?_eq_some_iff {failure : Failure} :
    firstStop? (r.attempts filenames) = some failure ↔
      failure = .paddingTooWide ∧ ∃ filename ∈ filenames, r.StopsAt filename := by
  have hstops : ∀ {other}, firstStop? (r.attempts filenames) = some other →
      other = .paddingTooWide ∧ ∃ filename ∈ filenames, r.StopsAt filename := by
    intro other h
    obtain ⟨attempt, hattempt, hstop⟩ := List.exists_of_findSome?_eq_some h
    obtain ⟨filename, hfilename, rfl⟩ := List.mem_map.mp hattempt
    simp only at hstop
    split at hstop
    · rename_i failure hpend
      rw [Option.ite_none_left_eq_some, Option.some.injEq] at hstop
      obtain ⟨hmany, rfl⟩ := hstop
      rcases concernsOneFile_or_tooWide_of_pend hpend with hone | ⟨rfl, -⟩
      · exact absurd hone hmany
      · exact ⟨rfl, filename, hfilename, pend_eq_tooWide_iff.mp hpend⟩
    · simp at hstop
  refine ⟨hstops, ?_⟩
  rintro ⟨rfl, filename, hfilename, hstop⟩
  cases h : firstStop? (r.attempts filenames) with
  | some other => rw [(hstops h).1]
  | none =>
    rw [firstStop?, List.findSome?_eq_none_iff] at h
    have hnone := h _ (List.mem_map_of_mem hfilename)
    simp [pend_eq_tooWide_iff.mpr hstop, Failure.concernsOneFile] at hnone

theorem exists_not_paddable_iff {filename : String} :
    (∃ name, r.pend filename = .ok name ∧ ∃ d ∈ name.deferred, ¬ d.width.Paddable) ↔
      r.DemandsTooWide filename := by
  constructor
  · rintro ⟨name, hpend, d, hd, hwide⟩
    obtain ⟨width, hwidth, hlt⟩ := Width.not_paddable_iff.mp hwide
    refine ⟨⟨name, hpend⟩, d.raw, width, ?_, hlt⟩
    rw [← deferred_of_pend hpend, ← hwidth]
    exact List.mem_map_of_mem hd
  · rintro ⟨⟨name, hpend⟩, value, width, hdemand, hlt⟩
    rw [← deferred_of_pend hpend] at hdemand
    obtain ⟨d, hd, hvalue⟩ := List.mem_map.mp hdemand
    exact ⟨name, hpend, d, hd, Width.not_paddable_iff.mpr ⟨width, (Prod.mk.inj hvalue).2, hlt⟩⟩

/-- A collection cannot be renamed for want of padding exactly if a name stops it, or if no name
does, no number is too long for its field and a number is to be written into a field that is too
wide. This does not happen if texts can be padded to all widths of the output pattern. -/
theorem rename_eq_tooWide_iff (r : Renamer) (filenames : List String) :
    (r.rename filenames = .error .paddingTooWide ↔
      (∃ filename ∈ filenames, r.StopsAt filename) ∨
      (¬ ∃ filename ∈ filenames, r.StopsAt filename) ∧ (∀ o, ¬ r.Overflows filenames o) ∧
        ∃ filename ∈ filenames, r.DemandsTooWide filename) ∧
    (r.output.Paddable → r.rename filenames ≠ .error .paddingTooWide) := by
  constructor
  · cases hstop : firstStop? (r.attempts filenames) with
    | some failure =>
      obtain ⟨rfl, hstops⟩ := firstStop?_eq_some_iff.mp hstop
      simp only [rename, settle, hstop, true_iff]
      exact Or.inl hstops
    | none =>
      have hnone : ¬ ∃ filename ∈ filenames, r.StopsAt filename := by
        intro hstops
        rw [firstStop?_eq_some_iff.mpr ⟨rfl, hstops⟩] at hstop
        simp at hstop
      rw [or_iff_right hnone, and_iff_right hnone, rename, settle, hstop]
      simp only
      obtain ⟨found, hlowest, hcheck⟩ := Numbering.check_ofNames (pending (r.attempts filenames))
      cases found with
      | some o =>
        -- a number that is too long is found before any number is written
        rw [hcheck]
        refine iff_of_false (by simp) fun h => h.1 o (overflows_iff.mpr hlowest.1)
      | none =>
        have hfit : ∀ o, ¬ r.Overflows filenames o := fun o ho => hlowest o (overflows_iff.mp ho)
        rw [hcheck, and_iff_right hfit]
        simp only [map_eq_error_iff, finishAll_eq_error_iff hcheck, true_and, mem_pending_iff]
        simp only [← exists_not_paddable_iff]
        constructor
        · rintro ⟨name, ⟨filename, hfilename, hpend⟩, hwide⟩
          exact ⟨filename, hfilename, name, hpend, hwide⟩
        · rintro ⟨filename, hfilename, name, hpend, hwide⟩
          exact ⟨name, ⟨filename, hfilename, hpend⟩, hwide⟩
  · intro hw h
    obtain ⟨found, -, houtcome⟩ := rename_of_lowest hw filenames
    cases found with
    | none =>
      obtain ⟨report, hreport⟩ := houtcome
      simp [h] at hreport
    | some o => simp [h] at houtcome

/-- Channels in a field of more letters than can be padded to. -/
def wideChannels : Renamer where
  input := channels.input
  output := ⟨[.field ⟨"channel", .character (.fixed (Text.maxPadding + 1))⟩, .literal ".tif"]⟩
  fieldCount_eq := rfl
  compiledSize_le := channels.compiledSize_le

/-- Nothing keeps such a renamer from being made. -/
theorem ofTexts_wideChannels :
    ofTexts "{channel:c+}.tif" wideChannels.output.render = .ok wideChannels := by
  have hnarrow : Pattern.parse "{channel:c}.tif" =
      .ok ⟨[.field ⟨"channel", .character (.fixed 1)⟩, .literal ".tif"]⟩ := by
    decide +kernel
  have hreadable : ∀ token ∈ wideChannels.output.tokens, token.IsReadable := by
    have hparts := Pattern.isReadable_of_parse hnarrow
    rw [List.forall_mem_cons] at hparts
    obtain ⟨⟨hname, hcolon, -⟩, hsuffix⟩ := hparts
    have hspec : ∀ n, (FieldKind.character (.fixed (Text.maxPadding + 1))).width = .fixed n →
        0 < n := by
      rintro n h
      rw [← Width.fixed.inj h]
      exact Nat.succ_pos _
    rw [wideChannels, List.forall_mem_cons]
    exact ⟨⟨hname, hcolon, FieldKind.ofSpec?_spec hspec⟩, hsuffix⟩
  exact ofTexts_eq_ok_iff.mpr
    ⟨by decide +kernel, Pattern.parse_render_of_isReadable hreadable⟩

theorem rename_eq_tooWide_iff_channels :
    channels.output.Paddable ∧ channels.rename ["GFP.tif"] ≠ .error .paddingTooWide ∧
      ofTexts "{channel:c+}.tif" wideChannels.output.render = .ok wideChannels ∧
      wideChannels.rename ["GFP.tif"] = .error .paddingTooWide := by
  have hw : channels.output.Paddable := by decide
  have hfind : wideChannels.input.find "GFP.tif" = .ok ⟨"", ["GFP"], ""⟩ := by decide +kernel
  have hstops : wideChannels.StopsAt "GFP.tif" := by
    refine ⟨_, 0, _, _, _, hfind, rfl, rfl, fun j hj => absurd hj (Nat.not_lt_zero j), ?_⟩
    exact .text rfl rfl (Nat.lt_succ_self _)
  exact ⟨hw, (rename_eq_tooWide_iff channels ["GFP.tif"]).2 hw, ofTexts_wideChannels,
    (rename_eq_tooWide_iff wideChannels ["GFP.tif"]).1.mpr
      (.inl ⟨"GFP.tif", List.mem_cons_self, hstops⟩)⟩

end Renamer

end PatternRename
