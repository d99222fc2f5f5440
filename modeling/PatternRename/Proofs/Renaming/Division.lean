import PatternRename.Proofs.Renaming.Reports

/-!
# What becomes of each name

A report divides a collection: each name, at each place where it stands, is either renamed or left
out, and it is left out exactly if no new name can be made for it. Where no text goes into a number
nothing ties the names together, so the names of a collection can be made one by one.

## Main definitions

- `Renamer.makes` — whether a new name can be made for a name
- `Renamer.Divided` — a collection taken apart into files and names that are left out
- `Renamer.KnownAtOnce` — a file whose new name is known before any values are numbered

## Main results

- `Renamer.rename_divided` — a report divides its collection, and look-ups agree with it
- `PendingName.finish_of_resolvedName?` — a name that waits for nothing does not change any more
- `Renamer.rename_append` — without numbers, the report on two collections is the reports on both
-/

namespace PatternRename

variable {r : Renamer}

namespace Renamer

/-! ### Files and names that are left out -/

/-- Whether a new name can be made for a name. -/
def makes (r : Renamer) (filename : String) : Bool :=
  (r.pend filename).isOk

theorem makes_of_ok {filename : String} {name : PendingName} (h : r.pend filename = .ok name) :
    r.makes filename = true := by
  rw [makes, h]
  rfl

theorem not_makes_of_error {filename : String} {failure : Failure}
    (h : r.pend filename = .error failure) : r.makes filename = false := by
  rw [makes, h]
  rfl

/-- A collection taken apart, from the first name to the last: a name that can be made becomes a
file, and one that cannot is left out with the failure that keeps it from being made. -/
inductive Divided (r : Renamer) : List String → List RenamedFile → List LeftOut → Prop
  | nil : Divided r [] [] []
  | renamed {filename : String} {name : PendingName} (hname : r.pend filename = .ok name)
    (target : String) {filenames : List String} {files : List RenamedFile} {others : List LeftOut}
    (h : Divided r filenames files others) :
    Divided r (filename :: filenames) (⟨filename, target⟩ :: files) others
  | leftOut {filename : String} {failure : Failure} (hfailure : r.pend filename = .error failure)
    {filenames : List String} {files : List RenamedFile} {others : List LeftOut}
    (h : Divided r filenames files others) :
    Divided r (filename :: filenames) files (⟨filename, failure⟩ :: others)

namespace Divided

variable {filenames : List String} {files : List RenamedFile} {others : List LeftOut}

/-- The names that can be made are the old names of the files, and the others are left out. -/
theorem partition_eq (h : r.Divided filenames files others) :
    filenames.partition r.makes =
      (files.map RenamedFile.source, others.map LeftOut.filename) := by
  rw [List.partition_eq_filter_filter]
  induction h with
  | nil => rfl
  | @renamed filename _ hname _ _ _ _ _ ih =>
    obtain ⟨hfiles, hothers⟩ := Prod.mk.inj ih
    have hmade := makes_of_ok hname
    rw [List.filter_cons_of_pos hmade, List.filter_cons_of_neg (by simp [hmade]), hfiles, hothers]
    rfl
  | @leftOut filename _ hfailure _ _ _ _ ih =>
    obtain ⟨hfiles, hothers⟩ := Prod.mk.inj ih
    have hnot := not_makes_of_error hfailure
    rw [List.filter_cons_of_neg (by simp [hnot]), List.filter_cons_of_pos (by simp [hnot]), hfiles,
      hothers]
    rfl

theorem length_eq (h : r.Divided filenames files others) :
    filenames.length = files.length + others.length := by
  have hboth := h.partition_eq
  rw [List.partition_eq_filter_filter] at hboth
  obtain ⟨hfiles, hothers⟩ := Prod.mk.inj hboth
  rw [List.length_eq_length_filter_add r.makes, hfiles,
    ← List.length_map RenamedFile.source, ← List.length_map LeftOut.filename, ← hothers]
  rfl

end Divided

/-- Files that are finished with any numbering, and the names that are left out, divide the
collection if no failure stops it. -/
theorem divided_of_finishAll {numbering : Numbering} {filenames : List String}
    (hstop : firstStop? (r.attempts filenames) = none) {files : List RenamedFile}
    (hfiles : finishAll numbering (pending (r.attempts filenames)) = .ok files) :
    r.Divided filenames files (leftOut (r.attempts filenames)) := by
  induction filenames generalizing files with
  | nil =>
    obtain rfl := Except.ok.inj hfiles
    exact Divided.nil
  | cons filename rest ih =>
    have hrest : firstStop? (r.attempts rest) = none :=
      firstStop?_eq_none_of_subset (List.subset_cons_self filename rest) hstop
    rw [pending_attempts, List.filterMap_cons] at hfiles
    rw [leftOut, attempts, List.map_cons, List.filterMap_cons]
    cases hpend : r.pend filename with
    | ok name =>
      rw [hpend] at hfiles
      change finishAll numbering (name :: _) = _ at hfiles
      rw [← pending_attempts] at hfiles
      obtain ⟨file, later, hfile, hlater, rfl⟩ :=
        List.forall₂_cons_left_iff.mp (finishAll_eq_ok_iff.mp hfiles)
      obtain ⟨source, target⟩ := file
      obtain rfl : source = filename :=
        (finishFile_eq_ok_iff.mp hfile).1.trans (source_of_pend hpend)
      exact (ih hrest (finishAll_eq_ok_iff.mpr hlater)).renamed hpend target
    | error failure =>
      rw [hpend] at hfiles
      change finishAll numbering (List.filterMap _ rest) = _ at hfiles
      rw [← pending_attempts] at hfiles
      -- a failure that concerned more than its file would have stopped the collection
      have hone : failure.concernsOneFile = true := by
        by_contra hnot
        rw [firstStop?, attempts, List.map_cons, hpend, List.findSome?_cons] at hstop
        simp [hnot] at hstop
      dsimp only
      rw [if_pos hone]
      exact (ih hrest hfiles).leftOut hpend

theorem divided_of_rename {filenames : List String} {report : Report}
    (h : r.rename filenames = .ok report) :
    r.Divided filenames report.renamed report.leftOut := by
  obtain ⟨hstop, -, hfinish, hleftOut⟩ := rename_eq_ok_iff.mp h
  rw [hleftOut]
  exact divided_of_finishAll hstop hfinish

/-- A report divides its collection into the files and the names that are left out, both in the
order of the collection. Looking up the old name of a file gives its new name, however often the old
name comes, and looking up any other name gives nothing. -/
theorem rename_divided (r : Renamer) {filenames : List String} {report : Report}
    (h : r.rename filenames = .ok report) :
    r.Divided filenames report.renamed report.leftOut ∧
    filenames.partition r.makes =
      (report.renamed.map RenamedFile.source, report.leftOut.map LeftOut.filename) ∧
    (∀ file ∈ report.renamed, report.target? file.source = some file.target) ∧
    ∀ filename, filename ∉ report.renamed.map RenamedFile.source →
      report.target? filename = none := by
  have hdivided := divided_of_rename h
  refine ⟨hdivided, hdivided.partition_eq, ?_, ?_⟩
  · intro file hfile
    exact (target?_eq_some_iff h).mpr hfile
  · intro filename hnone
    rw [Report.target?, Option.map_eq_none_iff, List.find?_eq_none]
    intro file hfile
    have hne : file.source ≠ filename := fun heq => hnone (heq ▸ List.mem_map_of_mem hfile)
    simpa using hne

/-- Channels that become numbers, and heights that lose their leading zeros or get more of them. -/
def measurements : Renamer where
  input := ⟨[.field ⟨"channel", .character .unbounded⟩, .literal "_", .field ⟨"height", .float⟩]⟩
  output := ⟨[.literal "c", .field ⟨"channel", .digit .unbounded⟩, .literal "_h",
    .field ⟨"height", .digit (.fixed 2)⟩]⟩
  fieldCount_eq := rfl
  compiledSize_le := by decide +kernel

/-- A file that comes twice, a name that does not fit, and one with a value that no field of digits
takes. -/
theorem rename_divided_measurements :
    ∃ report, measurements.rename ["GFP_7", "readme", "DAPI_1.5", "GFP_7"] = .ok report ∧
      measurements.Divided ["GFP_7", "readme", "DAPI_1.5", "GFP_7"] report.renamed
        report.leftOut ∧
      report.renamed = [⟨"GFP_7", "c1_h07"⟩, ⟨"GFP_7", "c1_h07"⟩] ∧
      report.target? "GFP_7" = some "c1_h07" ∧ report.target? "DAPI_1.5" = none := by
  have h : measurements.rename ["GFP_7", "readme", "DAPI_1.5", "GFP_7"] =
      .ok ⟨[⟨"GFP_7", "c1_h07"⟩, ⟨"GFP_7", "c1_h07"⟩],
        [⟨"readme", .noMatch "{channel:c+}_{height:f+}" "readme"⟩,
          ⟨"DAPI_1.5", .invalidFieldValue "height" "1.5" (.notAnInteger 2)⟩]⟩ := by
    decide +kernel
  obtain ⟨hdivided, -, hfound, hnone⟩ := rename_divided measurements h
  exact ⟨_, h, hdivided, rfl, hfound _ List.mem_cons_self, hnone _ (by decide)⟩

end Renamer

/-! ### Names without numbers -/

theorem PendingName.segmentTexts_of_isResolved (numbering : Numbering) {segments : List Segment}
    (h : segments.filterMap Segment.deferred? = []) :
    numbering.segmentTexts segments = .ok (segments.filterMap Segment.text?) := by
  induction segments with
  | nil => rfl
  | cons segment rest ih =>
    cases segment with
    | text known =>
      rw [List.filterMap_cons_none rfl] at h
      rw [Numbering.segmentTexts, ih h]
      rfl
    | deferred value =>
      have hwaits : (Segment.deferred value).deferred? = some value := rfl
      rw [List.filterMap_cons_some hwaits] at h
      simp at h

/-- A name that waits for nothing is finished with its texts, whatever the numbers are. -/
theorem PendingName.finish_of_resolvedName? (numbering : Numbering) {name : PendingName}
    {target : String} (h : name.resolvedName? = some target) :
    numbering.finish name = .ok target := by
  rw [resolvedName?, Option.ite_none_right_eq_some, isResolved, List.isEmpty_iff] at h
  obtain ⟨hresolved, htarget⟩ := h
  rw [Numbering.finish, segmentTexts_of_isResolved numbering hresolved, ← Option.some.inj htarget]
  rfl

namespace Renamer

/-- Where no text goes into a number, a new name waits for nothing. -/
theorem isResolved_of_pend (hpairs : ∀ pair ∈ r.pairs, isNumbered pair = false)
    {filename : String} {name : PendingName} (h : r.pend filename = .ok name) :
    name.isResolved = true := by
  have hdemand := deferred_of_pend h
  rw [demands_eq_nil hpairs, List.map_eq_nil_iff] at hdemand
  rw [PendingName.isResolved, hdemand]
  rfl

/-- A file whose new name is known before any values are numbered. -/
def KnownAtOnce (name : PendingName) (file : RenamedFile) : Prop :=
  name.isResolved = true ∧ file.source = name.source ∧ name.resolvedName? = some file.target

theorem rightUnique_knownAtOnce : Relator.RightUnique KnownAtOnce := by
  rintro name ⟨source, target⟩ ⟨source', target'⟩ ⟨-, hsource, htarget⟩ ⟨-, hsource', htarget'⟩
  rw [htarget, Option.some.injEq] at htarget'
  rw [RenamedFile.mk.injEq]
  exact ⟨hsource.trans hsource'.symm, htarget'⟩

/-- A file that is finished from a name that waits for nothing has the name that was known. -/
theorem knownAtOnce_of_finishFile {numbering : Numbering} {name : PendingName} {file : RenamedFile}
    (hresolved : name.isResolved = true) (h : finishFile numbering name = .ok file) :
    KnownAtOnce name file := by
  obtain ⟨hsource, htarget⟩ := finishFile_eq_ok_iff.mp h
  have hknown : name.resolvedName? =
      some (String.join (name.segments.filterMap Segment.text?)) := if_pos hresolved
  rw [PendingName.finish_of_resolvedName? numbering hknown, Except.ok.injEq] at htarget
  exact ⟨hresolved, hsource, htarget ▸ hknown⟩

theorem knownAtOnce_of_rename (hpairs : ∀ pair ∈ r.pairs, isNumbered pair = false)
    {filenames : List String} {report : Report} (h : r.rename filenames = .ok report) :
    List.Forall₂ KnownAtOnce (pending (r.attempts filenames)) report.renamed := by
  obtain ⟨-, -, hfinish, -⟩ := rename_eq_ok_iff.mp h
  have hresolved : ∀ name ∈ pending (r.attempts filenames), name.isResolved = true :=
    fun name hname => isResolved_of_pend hpairs (pend_source_of_mem_pending hname)
  have hboth := (List.forall₂_and_left _ _).mpr ⟨hresolved, finishAll_eq_ok_iff.mp hfinish⟩
  exact hboth.imp fun name file hfile => knownAtOnce_of_finishFile hfile.1 hfile.2

theorem pending_append (filenames others : List String) :
    pending (r.attempts (filenames ++ others)) =
      pending (r.attempts filenames) ++ pending (r.attempts others) := by
  rw [pending_attempts, List.filterMap_append, ← pending_attempts, ← pending_attempts]

theorem leftOut_append (filenames others : List String) :
    leftOut (r.attempts (filenames ++ others)) =
      leftOut (r.attempts filenames) ++ leftOut (r.attempts others) := by
  rw [leftOut, attempts, List.map_append, List.filterMap_append]
  rfl

/-- Where no text goes into a number, every collection has a report, the new name of each of its
files is known before the others are looked at, and two collections after each other have the
reports of both after each other. -/
theorem rename_append (r : Renamer) (hw : r.output.Paddable)
    (hpairs : ∀ pair ∈ r.pairs, isNumbered pair = false) :
    (∀ filenames, ∃ report, r.rename filenames = .ok report ∧
      List.Forall₂ KnownAtOnce (pending (r.attempts filenames)) report.renamed) ∧
    ∀ filenames others front back, r.rename filenames = .ok front → r.rename others = .ok back →
      r.rename (filenames ++ others) =
        .ok ⟨front.renamed ++ back.renamed, front.leftOut ++ back.leftOut⟩ := by
  have hall := exists_rename_of_not_isNumbered hw hpairs
  refine ⟨fun filenames => ?_, fun filenames others front back hfront hback => ?_⟩
  · obtain ⟨report, hreport⟩ := hall filenames
    exact ⟨report, hreport, knownAtOnce_of_rename hpairs hreport⟩
  · obtain ⟨⟨files, leftOut⟩, hboth⟩ := hall (filenames ++ others)
    -- each file of the long report is known by its own name
    have hfiles : files = front.renamed ++ back.renamed := by
      refine List.right_unique_forall₂' rightUnique_knownAtOnce
        (knownAtOnce_of_rename hpairs hboth) ?_
      rw [pending_append]
      exact List.rel_append (knownAtOnce_of_rename hpairs hfront)
        (knownAtOnce_of_rename hpairs hback)
    have hleftOut : leftOut = front.leftOut ++ back.leftOut := by
      rw [(rename_eq_ok_iff.mp hfront).2.2.2, (rename_eq_ok_iff.mp hback).2.2.2, ← leftOut_append]
      exact (rename_eq_ok_iff.mp hboth).2.2.2
    rw [hboth, hfiles, hleftOut]

/-- Plates whose rows are padded and whose heights become numbers of three digits. -/
def plates : Renamer where
  input := ⟨[.field ⟨"row", .character .unbounded⟩, .literal "_", .field ⟨"height", .float⟩]⟩
  output := ⟨[.field ⟨"row", .character (.fixed 3)⟩, .literal "_",
    .field ⟨"height", .integer (.fixed 3)⟩]⟩
  fieldCount_eq := rfl
  compiledSize_le := by decide +kernel

/-- A name of each kind in both collections. -/
theorem rename_append_plates :
    plates.output.Paddable ∧ (∀ pair ∈ plates.pairs, isNumbered pair = false) ∧
      plates.rename ["A_7", "readme", "B_-1", "A_1.5"] =
        .ok ⟨[⟨"A_7", "A  _007"⟩, ⟨"B_-1", "B  _-01"⟩],
          [⟨"readme", .noMatch "{row:c+}_{height:f+}" "readme"⟩,
            ⟨"A_1.5", .invalidFieldValue "height" "1.5" (.notAnInteger 3)⟩]⟩ := by
  have hw : plates.output.Paddable := by decide
  have hpairs : ∀ pair ∈ plates.pairs, isNumbered pair = false := by decide
  refine ⟨hw, hpairs, (rename_append plates hw hpairs).2 ["A_7", "readme"] ["B_-1", "A_1.5"]
    ⟨[⟨"A_7", "A  _007"⟩], [⟨"readme", .noMatch "{row:c+}_{height:f+}" "readme"⟩]⟩
    ⟨[⟨"B_-1", "B  _-01"⟩], [⟨"A_1.5", .invalidFieldValue "height" "1.5" (.notAnInteger 3)⟩]⟩
    ?_ ?_⟩
  · decide +kernel
  · decide +kernel

end Renamer

end PatternRename
