import PatternRename.Proofs.Renaming.Layout

/-!
# Renaming a collection

A collection gets its names by one formula: the text around the match stays, a value of a text
field that goes into a number field becomes its rank among all such values, and any other value
is rewritten by itself. The only thing that keeps a collection from its names is a number that is
too long for its field.

## Main definitions

- `Renamer.numbered` — the values of files that are numbered
- `Renamer.Renames` — the new name that a name has by the formula
- `Renamer.Overflows` — a number of a collection that is too long

## Main results

- `Renamer.renames_of_rename` — a report has the names of the formula
- `Renamer.rename_error_iff_overflows` — when a collection has no names, and why
-/

namespace PatternRename

namespace Renamer

/-! ### The values of a collection -/

/-- The values of some files that are numbered, whichever field they stand in. -/
def numbered (r : Renamer) (filenames : List String) : Finset String :=
  ((filenames.flatMap r.demands).map Prod.fst).toFinset

theorem mem_pending_iff {r : Renamer} {filenames : List String} {name : PendingName} :
    name ∈ pending (r.attempts filenames) ↔
      ∃ filename ∈ filenames, r.pend filename = .ok name := by
  rw [pending, attempts, List.mem_filterMap]
  constructor
  · rintro ⟨attempt, hattempt, hname⟩
    obtain ⟨filename, hfilename, rfl⟩ := List.mem_map.mp hattempt
    refine ⟨filename, hfilename, ?_⟩
    change (r.pend filename).toOption = some name at hname
    cases hpend : r.pend filename with
    | error failure => simp [hpend, Except.toOption] at hname
    | ok other =>
      rw [hpend] at hname
      exact congrArg Except.ok (Option.some.inj hname)
  · rintro ⟨filename, hfilename, hpend⟩
    refine ⟨_, List.mem_map_of_mem hfilename, ?_⟩
    change (r.pend filename).toOption = some name
    rw [hpend]
    rfl

/-- What waits in the names of a collection is what their old names demand. -/
theorem demand_allDeferred {r : Renamer} {names : List PendingName}
    (h : ∀ name ∈ names, r.pend name.source = .ok name) :
    (PendingName.allDeferred names).map Deferred.demand =
      (names.map PendingName.source).flatMap r.demands := by
  rw [PendingName.allDeferred, List.map_flatMap, List.flatMap_map]
  refine List.flatMap_congr ?_
  intro name hname
  exact deferred_of_pend (h name hname)

theorem pend_source_of_mem_pending {r : Renamer} {filenames : List String} {name : PendingName}
    (h : name ∈ pending (r.attempts filenames)) : r.pend name.source = .ok name := by
  obtain ⟨filename, -, hpend⟩ := mem_pending_iff.mp h
  rwa [source_of_pend hpend]

/-- The numbering of a collection gives each value its rank among the numbered values of the
files that get a name. -/
theorem number?_of_demand {r : Renamer} {names : List PendingName}
    (h : ∀ name ∈ names, r.pend name.source = .ok name) {name : PendingName} (hname : name ∈ names)
    {raw : String} {w : Width} (hdemand : (raw, w) ∈ r.demands name.source) :
    (Numbering.ofNames names).number? raw =
      some (rank (r.numbered (names.map PendingName.source)) raw) := by
  have hraws : (PendingName.allDeferred names).map Deferred.raw =
      ((names.map PendingName.source).flatMap r.demands).map Prod.fst := by
    rw [← demand_allDeferred h, List.map_map]
    rfl
  have hmem : raw ∈ (PendingName.allDeferred names).map Deferred.raw := by
    rw [hraws, List.mem_map]
    refine ⟨(raw, w), ?_, rfl⟩
    rw [List.mem_flatMap]
    exact ⟨name.source, List.mem_map_of_mem hname, hdemand⟩
  rw [Numbering.ofNames, Numbering.number?_ofValues hmem, hraws]
  rfl

/-! ### The formula of a new name -/

/-- The text of a value at a position: the rank among the numbered values if text goes into a
number, and the rewritten value otherwise. -/
def Writes (r : Renamer) (values : Finset String) (k : Nat) (raw text : String) : Prop :=
  ∃ input output, r.pairs[k]? = some (input, output) ∧
    if isNumbered (input, output) then text = Numbering.numberText (rank values raw) output.kind.width
    else reencode k input output raw = .ok (.text text)

/-- The new name that a name has when these values are numbered: the text around the match stays,
and each field of the output pattern holds the text of the value at its position. -/
def Renames (r : Renamer) (values : Finset String) (source target : String) : Prop :=
  ∃ m texts, r.input.find source = .ok m ∧
    texts.length = m.values.length ∧ texts.length = r.output.fieldCount ∧
    (∀ k raw text, m.values[k]? = some raw → texts[k]? = some text → r.Writes values k raw text) ∧
    target = m.before ++ Pattern.fill r.output.tokens texts ++ m.after

/-- A text that stands for a segment is the text of the value at its position. -/
theorem writes_of_segmentText {r : Renamer} {numbering : Numbering} {values : Finset String}
    {raws : List String} {segments : List Segment} {k : Nat} {raw text : String} {segment : Segment}
    (hnumber : ∀ value w, (value, w) ∈ demandsOf r.pairs raws →
      numbering.number? value = some (rank values value))
    (hlength : r.pairs.length = raws.length) (hsegments : reencodeAll 0 r.pairs raws = .ok segments)
    (hraw : raws[k]? = some raw) (hsegment : segments[k]? = some segment)
    (htext : numbering.segmentText segment = .ok text) : r.Writes values k raw text := by
  have hk : k < r.pairs.length := by
    rw [hlength]
    exact (List.getElem?_eq_some_iff.mp hraw).1
  have hpair : r.pairs[k]? = some r.pairs[k] := List.getElem?_eq_getElem hk
  have hreencode := reencode_of_getElem?_reencodeAll hsegments hpair hraw hsegment
  rw [Nat.zero_add] at hreencode
  refine ⟨r.pairs[k].1, r.pairs[k].2, hpair, ?_⟩
  split
  · rename_i hnumbered
    have hdemand : (raw, r.pairs[k].2.kind.width) ∈ demandsOf r.pairs raws := by
      rw [demandsOf, List.mem_filterMap]
      refine ⟨(r.pairs[k], raw), ?_, ?_⟩
      · apply List.mem_of_getElem? (i := k)
        rw [List.getElem?_zip_eq_some]
        exact ⟨hpair, hraw⟩
      · rw [demand?, if_pos hnumbered]
    rw [reencode_of_isNumbered hnumbered hreencode, Numbering.segmentText, Numbering.number,
      hnumber _ _ hdemand] at htext
    exact Numbering.writeNumber_eq_ok htext
  · rename_i hnumbered
    rw [Bool.not_eq_true] at hnumbered
    obtain ⟨known, rfl⟩ := reencode_of_not_isNumbered hnumbered hreencode
    rw [hreencode, ← Except.ok.inj htext]

theorem exists_of_finish_append {numbering : Numbering} {source target : String}
    {front middle back : List Segment}
    (h : numbering.finish ⟨source, front ++ middle ++ back⟩ = .ok target) :
    ∃ fronts middles backs,
      List.Forall₂ numbering.Gives front fronts ∧
      List.Forall₂ numbering.Gives middle middles ∧
      List.Forall₂ numbering.Gives back backs ∧
      target = String.join fronts ++ String.join middles ++ String.join backs := by
  obtain ⟨outs, houts, rfl⟩ := Numbering.finish_eq_ok_iff.mp h
  rw [List.append_assoc] at houts
  have hfront := List.forall₂_take front.length houts
  have hrest := List.forall₂_drop front.length houts
  rw [List.take_left] at hfront
  rw [List.drop_left] at hrest
  have hmiddle := List.forall₂_take middle.length hrest
  have hback := List.forall₂_drop middle.length hrest
  rw [List.take_left] at hmiddle
  rw [List.drop_left] at hback
  refine ⟨_, _, _, hfront, hmiddle, hback, ?_⟩
  rw [String.append_assoc, ← String.join_append, List.take_append_drop, ← String.join_append,
    List.take_append_drop]

/-- A finished name is made of the text around the match and, along the output pattern, of the
texts of the rewritten values. -/
theorem exists_texts_of_finish {r : Renamer} {numbering : Numbering} {name : PendingName}
    {target : String} (hpend : r.pend name.source = .ok name)
    (h : numbering.finish name = .ok target) :
    ∃ m segments texts, r.input.find name.source = .ok m ∧
      reencodeAll 0 r.pairs m.values = .ok segments ∧
      List.Forall₂ numbering.Gives segments texts ∧ texts.length = m.values.length ∧
      target = m.before ++ Pattern.fill r.output.tokens texts ++ m.after := by
  obtain ⟨m, segments, hfind, hsegments, hname⟩ := pend_eq_ok_iff.mp hpend
  have hlength := length_values_of_find hfind
  have hcount : segments.length = m.values.length := length_reencodeAll hsegments hlength
  rw [hname] at h
  obtain ⟨fronts, middles, backs, hfront, hmiddle, hback, rfl⟩ := exists_of_finish_append h
  obtain ⟨texts, htexts, hfill⟩ := exists_fill_of_layOut
    (by rw [hcount, ← hlength, length_pairs]; rfl) hmiddle
  refine ⟨m, segments, texts, hfind, hsegments, htexts, htexts.length_eq.symm.trans hcount, ?_⟩
  rw [join_of_surroundings hfront, join_of_surroundings hback, hfill]

/-- A finished name is the one of the formula, if every value has its rank for a number. -/
theorem renames_of_finish {r : Renamer} {numbering : Numbering} {values : Finset String}
    {name : PendingName} {target : String} (hpend : r.pend name.source = .ok name)
    (hnumber : ∀ value w, (value, w) ∈ r.demands name.source →
      numbering.number? value = some (rank values value))
    (h : numbering.finish name = .ok target) : r.Renames values name.source target := by
  obtain ⟨m, segments, texts, hfind, hsegments, htexts, hcount, htarget⟩ :=
    exists_texts_of_finish hpend h
  have hlength := length_values_of_find hfind
  rw [demands, Pattern.find_eq_ok_iff.mp hfind] at hnumber
  refine ⟨m, texts, hfind, hcount, ?_, ?_, htarget⟩
  · rw [hcount, ← hlength, length_pairs]
  · intro k raw text hraw htext
    have hk : k < segments.length := by
      rw [htexts.length_eq]
      exact (List.getElem?_eq_some_iff.mp htext).1
    have hsegment : segments[k]? = some segments[k] := List.getElem?_eq_getElem hk
    have hwritten : numbering.segmentText segments[k] = .ok text := by
      apply List.forall₂_zip htexts
      apply List.mem_of_getElem? (i := k)
      rw [List.getElem?_zip_eq_some]
      exact ⟨hsegment, htext⟩
    exact writes_of_segmentText hnumber hlength hsegments hraw hsegment hwritten

/-! ### The names of a report -/

def finishFile (numbering : Numbering) (name : PendingName) : Except Failure RenamedFile :=
  (numbering.finish name).map fun target => ⟨name.source, target⟩

theorem finishAll_eq_mapM (numbering : Numbering) (names : List PendingName) :
    finishAll numbering names = names.mapM (finishFile numbering) := by
  induction names with
  | nil => rfl
  | cons name rest ih =>
    rw [finishAll, List.mapM_cons, ih, finishFile]
    cases numbering.finish name with
    | error failure => rfl
    | ok target => cases rest.mapM (finishFile numbering) <;> rfl

theorem finishFile_eq_ok_iff {numbering : Numbering} {name : PendingName} {file : RenamedFile} :
    finishFile numbering name = .ok file ↔
      file.source = name.source ∧ numbering.finish name = .ok file.target := by
  rw [finishFile, map_eq_ok_iff]
  constructor
  · rintro ⟨target, htarget, rfl⟩
    exact ⟨rfl, htarget⟩
  · rintro ⟨hsource, htarget⟩
    refine ⟨file.target, htarget, ?_⟩
    rw [← hsource]

theorem finishAll_eq_ok_iff {numbering : Numbering} {names : List PendingName}
    {files : List RenamedFile} :
    finishAll numbering names = .ok files ↔
      List.Forall₂ (fun name file => finishFile numbering name = .ok file) names files := by
  rw [finishAll_eq_mapM, mapM_eq_ok_iff]

/-- A collection has its names once no failure stops it, the numbers fit and all names are
finished. -/
theorem rename_eq_ok_iff {r : Renamer} {filenames : List String} {report : Report} :
    r.rename filenames = .ok report ↔
      firstStop? (r.attempts filenames) = none ∧
      (Numbering.ofNames (pending (r.attempts filenames))).check (pending (r.attempts filenames)) =
        .ok () ∧
      finishAll (Numbering.ofNames (pending (r.attempts filenames)))
        (pending (r.attempts filenames)) = .ok report.renamed ∧
      report.leftOut = leftOut (r.attempts filenames) := by
  rw [rename, settle]
  cases hstop : firstStop? (r.attempts filenames) with
  | some failure => simp
  | none =>
    simp only
    split
    · rename_i failure hcheck
      simp [hcheck]
    · rename_i hcheck
      simp only [hcheck, true_and, map_eq_ok_iff]
      obtain ⟨renamed, others⟩ := report
      constructor
      · rintro ⟨files, hfiles, heq⟩
        obtain ⟨rfl, rfl⟩ := Report.mk.inj heq
        exact ⟨hfiles, rfl⟩
      · rintro ⟨hfiles, rfl⟩
        exact ⟨renamed, hfiles, rfl⟩

theorem map_source_of_finishAll {numbering : Numbering} {names : List PendingName}
    {files : List RenamedFile} (h : finishAll numbering names = .ok files) :
    files.map RenamedFile.source = names.map PendingName.source := by
  rw [finishAll_eq_ok_iff] at h
  induction h with
  | nil => rfl
  | cons hfile _ ih => rw [List.map_cons, List.map_cons, (finishFile_eq_ok_iff.mp hfile).1, ih]

/-- The names that can be made stand in the order of the collection. -/
theorem map_source_pending_sublist (r : Renamer) (filenames : List String) :
    ((pending (r.attempts filenames)).map PendingName.source).Sublist filenames := by
  induction filenames with
  | nil => exact List.Sublist.refl []
  | cons filename rest ih =>
    cases hpend : r.pend filename with
    | error failure =>
      have hskip : pending (r.attempts (filename :: rest)) = pending (r.attempts rest) := by
        rw [pending, attempts, List.map_cons, List.filterMap_cons, hpend]
        rfl
      rw [hskip]
      exact ih.cons filename
    | ok name =>
      have hcons : pending (r.attempts (filename :: rest)) =
          name :: pending (r.attempts rest) := by
        rw [pending, attempts, List.map_cons, List.filterMap_cons, hpend]
        rfl
      rw [hcons, List.map_cons, source_of_pend hpend]
      exact ih.cons_cons filename

/-- The files of a report stand in the order of the collection. -/
theorem sublist_of_rename {r : Renamer} {filenames : List String} {report : Report}
    (h : r.rename filenames = .ok report) :
    (report.renamed.map RenamedFile.source).Sublist filenames := by
  obtain ⟨-, -, hfinish, -⟩ := rename_eq_ok_iff.mp h
  rw [map_source_of_finishAll hfinish]
  exact map_source_pending_sublist r filenames

theorem source_mem_of_rename {r : Renamer} {filenames : List String} {report : Report}
    (h : r.rename filenames = .ok report) {file : RenamedFile} (hfile : file ∈ report.renamed) :
    file.source ∈ filenames :=
  (sublist_of_rename h).mem (List.mem_map_of_mem hfile)

/-- Every file of a report has the name of the formula, where the numbered values are the ones of
all files of the report. -/
theorem renames_of_rename {r : Renamer} {filenames : List String} {report : Report}
    (h : r.rename filenames = .ok report) {file : RenamedFile} (hfile : file ∈ report.renamed) :
    r.Renames (r.numbered (report.renamed.map RenamedFile.source)) file.source file.target := by
  obtain ⟨-, -, hfinish, -⟩ := rename_eq_ok_iff.mp h
  rw [map_source_of_finishAll hfinish]
  have hpend : ∀ name ∈ pending (r.attempts filenames), r.pend name.source = .ok name :=
    fun name hname => pend_source_of_mem_pending hname
  obtain ⟨i, hi, rfl⟩ := List.mem_iff_getElem.mp hfile
  -- the file and the name that it is made from are at the same position
  have hall := finishAll_eq_ok_iff.mp hfinish
  have hi' : i < (pending (r.attempts filenames)).length := by
    rw [hall.length_eq]
    exact hi
  have hname := List.getElem_mem hi'
  obtain ⟨hsource, htarget⟩ := finishFile_eq_ok_iff.mp (hall.get hi' hi)
  change report.renamed[i].source = (pending (r.attempts filenames))[i].source at hsource
  rw [hsource]
  refine renames_of_finish (hpend _ hname) ?_ htarget
  intro value w hdemand
  exact number?_of_demand hpend hname hdemand

/-- Channels of a microscope that become numbers of one digit. -/
def channels : Renamer where
  input := ⟨[.field ⟨"channel", .character .unbounded⟩, .literal ".tif"]⟩
  output := ⟨[.literal "ch", .field ⟨"channel", .digit (.fixed 1)⟩, .literal ".tif"]⟩
  fieldCount_eq := rfl
  compiledSize_le := by decide +kernel

theorem renames_of_rename_channels :
    channels.rename ["GFP.tif", "DAPI.tif"] =
      .ok ⟨[⟨"GFP.tif", "ch2.tif"⟩, ⟨"DAPI.tif", "ch1.tif"⟩], []⟩ ∧
    channels.Renames (channels.numbered ["GFP.tif", "DAPI.tif"]) "GFP.tif" "ch2.tif" := by
  have h : channels.rename ["GFP.tif", "DAPI.tif"] =
      .ok ⟨[⟨"GFP.tif", "ch2.tif"⟩, ⟨"DAPI.tif", "ch1.tif"⟩], []⟩ := by decide +kernel
  exact ⟨h, renames_of_rename h List.mem_cons_self⟩

/-! ### Collections without names -/

/-- A number of a collection that is too long for a field that it is written into. The file with
the field can be matched and rewritten. -/
structure Overflows (r : Renamer) (filenames : List String) (o : Numbering.Overflow) : Prop where
  demanded : ∃ filename ∈ filenames, (∃ name, r.pend filename = .ok name) ∧
    (o.value, Width.fixed o.width) ∈ r.demands filename
  number?_eq : (Numbering.ofNames (pending (r.attempts filenames))).number? o.value = some o.number
  le_number : 10 ^ o.width ≤ o.number

theorem overflows_iff {r : Renamer} {filenames : List String} {o : Numbering.Overflow} :
    r.Overflows filenames o ↔
      ∃ d ∈ PendingName.allDeferred (pending (r.attempts filenames)),
        (Numbering.ofNames (pending (r.attempts filenames))).Exceeds d o := by
  constructor
  · rintro ⟨⟨filename, hfilename, ⟨name, hname⟩, hdemand⟩, hnumber, hle⟩
    rw [← deferred_of_pend hname, List.mem_map] at hdemand
    obtain ⟨d, hd, hvalue⟩ := hdemand
    obtain ⟨hraw, hwidth⟩ := Prod.mk.inj hvalue
    refine ⟨d, ?_, hraw, hwidth, hnumber, hle⟩
    rw [PendingName.allDeferred, List.mem_flatMap]
    exact ⟨name, mem_pending_iff.mpr ⟨filename, hfilename, hname⟩, hd⟩
  · rintro ⟨d, hd, hraw, hwidth, hnumber, hle⟩
    rw [PendingName.allDeferred, List.mem_flatMap] at hd
    obtain ⟨name, hname, hdeferred⟩ := hd
    obtain ⟨filename, hfilename, hpend⟩ := mem_pending_iff.mp hname
    refine ⟨⟨filename, hfilename, ⟨name, hpend⟩, ?_⟩, hnumber, hle⟩
    rw [← deferred_of_pend hpend, ← hraw, ← hwidth]
    exact List.mem_map_of_mem hdeferred

/-- No two values of a collection have the same number. -/
theorem value_eq_of_number_eq {r : Renamer} {filenames : List String} {o other : Numbering.Overflow}
    (ho : r.Overflows filenames o) (hother : r.Overflows filenames other)
    (h : other.number = o.number) : other.value = o.value := by
  have hvalue : ∀ {p : Numbering.Overflow}, r.Overflows filenames p →
      p.value ∈ (PendingName.allDeferred (pending (r.attempts filenames))).map Deferred.raw := by
    intro p hp
    obtain ⟨d, hd, hexceeds⟩ := overflows_iff.mp hp
    rw [← hexceeds.raw_eq]
    exact List.mem_map_of_mem hd
  have hnumber : ∀ {p : Numbering.Overflow}, r.Overflows filenames p → p.number =
      rank ((PendingName.allDeferred (pending (r.attempts filenames))).map Deferred.raw).toFinset
        p.value := by
    intro p hp
    have := hp.number?_eq
    rw [Numbering.ofNames, Numbering.number?_ofValues (hvalue hp)] at this
    exact (Option.some.inj this).symm
  rw [hnumber ho, hnumber hother] at h
  exact rank_injOn (List.mem_toFinset.mpr (hvalue hother)) (List.mem_toFinset.mpr (hvalue ho)) h

theorem firstStop?_eq_none {r : Renamer} (hw : r.output.Paddable) (filenames : List String) :
    firstStop? (r.attempts filenames) = none := by
  rw [firstStop?, List.findSome?_eq_none_iff]
  intro attempt hattempt
  obtain ⟨filename, -, rfl⟩ := List.mem_map.mp hattempt
  cases hpend : r.pend filename with
  | error failure => simp [concernsOneFile_of_pend hw hpend]
  | ok name => rfl

/-- The width of a waiting number is the width of a field of the output pattern. -/
theorem le_maxPadding_of_mem_allDeferred {r : Renamer} (hw : r.output.Paddable)
    {filenames : List String} {d : Deferred}
    (hd : d ∈ PendingName.allDeferred (pending (r.attempts filenames))) {width : Nat}
    (hwidth : d.width = .fixed width) : width ≤ Text.maxPadding := by
  rw [PendingName.allDeferred, List.mem_flatMap] at hd
  obtain ⟨name, hname, hdeferred⟩ := hd
  have hdemand : (d.raw, d.width) ∈ r.demands name.source := by
    rw [← deferred_of_pend (pend_source_of_mem_pending hname)]
    exact List.mem_map_of_mem hdeferred
  rw [demands] at hdemand
  split at hdemand
  · simp at hdemand
  · rw [demandsOf, List.mem_filterMap] at hdemand
    obtain ⟨⟨pair, raw⟩, hpair, hsome⟩ := hdemand
    rw [demand?] at hsome
    split at hsome
    · obtain ⟨-, hkind⟩ := Prod.mk.inj (Option.some.inj hsome)
      refine hw pair.2 (List.of_mem_zip (List.of_mem_zip hpair).1).2 width ?_
      rw [hkind, hwidth]
    · simp at hsome

/-- Once the check of a collection has passed, all of its names can be finished. -/
theorem exists_finish {r : Renamer} (hw : r.output.Paddable) {filenames : List String}
    (hcheck : (Numbering.ofNames (pending (r.attempts filenames))).check
      (pending (r.attempts filenames)) = .ok ()) :
    ∀ name ∈ pending (r.attempts filenames), ∃ target,
      (Numbering.ofNames (pending (r.attempts filenames))).finish name = .ok target := by
  intro name hname
  refine Numbering.exists_finish_of_check ?_ hcheck hname
  intro d hd width hwidth
  exact le_maxPadding_of_mem_allDeferred hw hd hwidth

/-- The outcome of a collection is decided by its least overflow. -/
theorem rename_of_lowest {r : Renamer} (hw : r.output.Paddable) (filenames : List String) :
    ∃ found, Numbering.IsLowest (r.Overflows filenames) found ∧
      match found with
      | none => ∃ report, r.rename filenames = .ok report
      | some o => r.rename filenames = .error (.widthOverflow o.value o.number o.width) := by
  obtain ⟨found, hlowest, hcheck⟩ := Numbering.check_ofNames (pending (r.attempts filenames))
  refine ⟨found, hlowest.congr fun o => overflows_iff.symm, ?_⟩
  cases found with
  | none =>
    -- nothing overflows, so the check passes and every name can be finished
    have hfinish : ∀ name ∈ pending (r.attempts filenames), ∃ file,
        finishFile (Numbering.ofNames (pending (r.attempts filenames))) name = .ok file := by
      intro name hname
      obtain ⟨target, htarget⟩ := exists_finish hw hcheck name hname
      exact ⟨⟨name.source, target⟩, finishFile_eq_ok_iff.mpr ⟨rfl, htarget⟩⟩
    obtain ⟨files, hfiles⟩ := exists_mapM_eq_ok hfinish
    rw [← finishAll_eq_mapM] at hfiles
    refine ⟨⟨files, leftOut (r.attempts filenames)⟩, rename_eq_ok_iff.mpr ?_⟩
    exact ⟨firstStop?_eq_none hw filenames, hcheck, hfiles, rfl⟩
  | some o => simp only [rename, settle, firstStop?_eq_none hw filenames, hcheck]

/-- A collection has no names exactly if a number is too long for its field. The failure names the
least such number, its value and a field that it is too long for. No failure that concerns a
single file stops the collection, and after the check nothing fails. -/
theorem rename_error_iff_overflows (r : Renamer) (hw : r.output.Paddable)
    (filenames : List String) :
    ((∃ failure, r.rename filenames = .error failure) ↔ ∃ o, r.Overflows filenames o) ∧
    (∀ failure, r.rename filenames = .error failure →
      ∃ o, failure = .widthOverflow o.value o.number o.width ∧ r.Overflows filenames o ∧
        ∀ other, r.Overflows filenames other →
          o.number ≤ other.number ∧ (other.number = o.number → other.value = o.value)) ∧
    firstStop? (r.attempts filenames) = none ∧
    ((Numbering.ofNames (pending (r.attempts filenames))).check (pending (r.attempts filenames)) =
        .ok () →
      ∀ name ∈ pending (r.attempts filenames), ∃ target,
        (Numbering.ofNames (pending (r.attempts filenames))).finish name = .ok target) := by
  obtain ⟨found, hlowest, houtcome⟩ := rename_of_lowest hw filenames
  refine ⟨?_, ?_, firstStop?_eq_none hw filenames, exists_finish hw⟩
  · cases found with
    | none =>
      obtain ⟨report, hreport⟩ := houtcome
      refine iff_of_false ?_ fun ⟨o, ho⟩ => hlowest o ho
      rintro ⟨failure, hfailure⟩
      rw [hreport] at hfailure
      simp at hfailure
    | some o => exact iff_of_true ⟨_, houtcome⟩ ⟨o, hlowest.1⟩
  · intro failure hfailure
    cases found with
    | none =>
      obtain ⟨report, hreport⟩ := houtcome
      rw [hreport] at hfailure
      simp at hfailure
    | some o =>
      refine ⟨o, Except.error.inj (hfailure.symm.trans houtcome), hlowest.1, ?_⟩
      intro other hother
      exact ⟨hlowest.2 other hother, value_eq_of_number_eq hlowest.1 hother⟩

theorem rename_error_iff_overflows_channels :
    channels.output.Paddable ∧
      ∃ o, channels.Overflows ["a.tif", "b.tif", "c.tif", "d.tif", "e.tif", "f.tif", "g.tif",
        "h.tif", "i.tif", "j.tif"] o := by
  have hw : channels.output.Paddable := by
    intro f hf width hwidth
    obtain rfl : f = ⟨"channel", .digit (.fixed 1)⟩ := List.mem_singleton.mp hf
    obtain rfl : 1 = width := Width.fixed.inj hwidth
    decide
  refine ⟨hw, ?_⟩
  rw [← (rename_error_iff_overflows channels hw _).1]
  exact ⟨.widthOverflow "j" 10 1, by decide +kernel⟩

end Renamer

end PatternRename
