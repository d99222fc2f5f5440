import Mathlib.Data.List.Perm.Basic
import PatternRename.Proofs.Renaming.Reports
import PatternRename.Proofs.Renaming.WidePadding

/-!
# What a report does not depend on

The order in which the names of a collection come is of no consequence but for the order of the
report, and names that cannot be made are of no consequence for the others. Both rest on the
numbering, which is known by the set of values that the names which can be made demand.

## Main definitions

- `Renamer.Thinned` — a collection without some of the names that cannot be made

## Main results

- `Renamer.rename_perm` — collections that differ in their order
- `Renamer.rename_thinned` — collections that differ in names that cannot be made
-/

namespace PatternRename

/-! ### Names in another order -/

theorem PendingName.allDeferred_perm {names others : List PendingName} (h : names.Perm others) :
    (PendingName.allDeferred names).Perm (PendingName.allDeferred others) :=
  h.flatMap_right PendingName.deferred

namespace Numbering

theorem ofNames_eq_of_perm {names others : List PendingName} (h : names.Perm others) :
    ofNames names = ofNames others := by
  have hraws := (PendingName.allDeferred_perm h).map Deferred.raw
  apply ofValues_eq_of_mem_iff
  intro value
  exact hraws.mem_iff

theorem check_eq_ok_of_perm {names others : List PendingName} (h : names.Perm others)
    (hcheck : (ofNames names).check names = .ok ()) : (ofNames others).check others = .ok () := by
  rw [check_eq_ok_iff] at hcheck ⊢
  intro d hd o ho
  rw [← ofNames_eq_of_perm h] at ho
  exact hcheck d ((PendingName.allDeferred_perm h).mem_iff.mpr hd) o ho

end Numbering

namespace Renamer

variable {r : Renamer}

theorem attempts_perm {filenames others : List String} (h : filenames.Perm others) :
    (r.attempts filenames).Perm (r.attempts others) :=
  h.map _

theorem pending_perm {filenames others : List String} (h : filenames.Perm others) :
    (pending (r.attempts filenames)).Perm (pending (r.attempts others)) :=
  (attempts_perm h).filterMap _

theorem leftOut_perm {filenames others : List String} (h : filenames.Perm others) :
    (leftOut (r.attempts filenames)).Perm (leftOut (r.attempts others)) :=
  (attempts_perm h).filterMap _

/-- The names of a report can be finished in any order. -/
theorem exists_finishAll_of_perm {numbering : Numbering} {names others : List PendingName}
    (h : names.Perm others) {files : List RenamedFile}
    (hfiles : finishAll numbering names = .ok files) :
    ∃ filesOthers, finishAll numbering others = .ok filesOthers ∧ files.Perm filesOthers := by
  obtain ⟨filesOthers, hall, hperm⟩ :=
    List.perm_comp_forall₂ h.symm (finishAll_eq_ok_iff.mp hfiles)
  exact ⟨filesOthers, finishAll_eq_ok_iff.mpr hall, hperm.symm⟩

/-- A report on a collection is one on the collection in another order, up to order. -/
theorem exists_rename_of_perm {filenames others : List String} (h : filenames.Perm others)
    {report : Report} (hreport : r.rename filenames = .ok report) :
    ∃ other, r.rename others = .ok other ∧ report.renamed.Perm other.renamed ∧
      report.leftOut.Perm other.leftOut := by
  obtain ⟨hstop, hcheck, hfinish, hleftOut⟩ := rename_eq_ok_iff.mp hreport
  have hnames := pending_perm (r := r) h
  rw [Numbering.ofNames_eq_of_perm hnames] at hfinish
  obtain ⟨files, hfiles, hperm⟩ := exists_finishAll_of_perm hnames hfinish
  refine ⟨⟨files, leftOut (r.attempts others)⟩, rename_eq_ok_iff.mpr ?_, hperm, ?_⟩
  · have hsubset : others ⊆ filenames := h.symm.subset
    exact ⟨firstStop?_eq_none_of_subset hsubset hstop, Numbering.check_eq_ok_of_perm hnames hcheck,
      hfiles, rfl⟩
  · rw [hleftOut]
    exact leftOut_perm h

/-- A look-up does not depend on the order of the files that it searches. -/
theorem target?_eq_of_perm {filenames others : List String} {report other : Report}
    (hreport : r.rename filenames = .ok report) (hother : r.rename others = .ok other)
    (h : report.renamed.Perm other.renamed) (filename : String) :
    report.target? filename = other.target? filename := by
  apply Option.ext
  intro target
  rw [target?_eq_some_iff hreport, target?_eq_some_iff hother]
  exact h.mem_iff

/-- Whether a collection has a report does not depend on the order of its names, nor does the new
name of a file. The files and the names that are left out come in another order. -/
theorem rename_perm (r : Renamer) {filenames others : List String} (h : filenames.Perm others) :
    ((∃ report, r.rename filenames = .ok report) ↔ ∃ report, r.rename others = .ok report) ∧
    ∀ report other, r.rename filenames = .ok report → r.rename others = .ok other →
      report.renamed.Perm other.renamed ∧ report.leftOut.Perm other.leftOut ∧
        ∀ filename, report.target? filename = other.target? filename := by
  refine ⟨⟨?_, ?_⟩, ?_⟩
  · rintro ⟨report, hreport⟩
    obtain ⟨other, hother, -⟩ := exists_rename_of_perm h hreport
    exact ⟨other, hother⟩
  · rintro ⟨other, hother⟩
    obtain ⟨report, hreport, -⟩ := exists_rename_of_perm h.symm hother
    exact ⟨report, hreport⟩
  · intro report other hreport hother
    obtain ⟨found, hfound, hrenamed, hleftOut⟩ := exists_rename_of_perm h hreport
    obtain rfl : found = other := Except.ok.inj (hfound.symm.trans hother)
    exact ⟨hrenamed, hleftOut, target?_eq_of_perm hreport hother hrenamed⟩

/-- A name that comes twice, one that is left out, and one that comes last and gets the first
number. -/
theorem rename_perm_channels :
    ["GFP.tif", "x.png", "GFP.tif", "DAPI.tif"].Perm ["DAPI.tif", "GFP.tif", "GFP.tif", "x.png"] ∧
    ∃ report other,
      channels.rename ["GFP.tif", "x.png", "GFP.tif", "DAPI.tif"] = .ok report ∧
      channels.rename ["DAPI.tif", "GFP.tif", "GFP.tif", "x.png"] = .ok other ∧
      report.renamed =
        [⟨"GFP.tif", "ch2.tif"⟩, ⟨"GFP.tif", "ch2.tif"⟩, ⟨"DAPI.tif", "ch1.tif"⟩] ∧
      report.renamed.Perm other.renamed ∧ report.leftOut.Perm other.leftOut ∧
        ∀ filename, report.target? filename = other.target? filename := by
  have h : ["GFP.tif", "x.png", "GFP.tif", "DAPI.tif"].Perm
      ["DAPI.tif", "GFP.tif", "GFP.tif", "x.png"] := by decide
  have hreport : channels.rename ["GFP.tif", "x.png", "GFP.tif", "DAPI.tif"] =
      .ok ⟨[⟨"GFP.tif", "ch2.tif"⟩, ⟨"GFP.tif", "ch2.tif"⟩, ⟨"DAPI.tif", "ch1.tif"⟩],
        [⟨"x.png", .noMatch "{channel:c+}.tif" "x.png"⟩]⟩ := by decide +kernel
  obtain ⟨other, hother⟩ := (rename_perm channels h).1.mp ⟨_, hreport⟩
  exact ⟨h, _, other, hreport, hother, rfl, (rename_perm channels h).2 _ _ hreport hother⟩

/-! ### Names that cannot be made -/

/-- The second of two collections is the first without some of the names that cannot be made. A
name that is there several times may go at one place and stay at another. -/
inductive Thinned (r : Renamer) : List String → List String → Prop
  | nil : Thinned r [] []
  | keep (filename : String) {filenames kept : List String} (h : Thinned r filenames kept) :
    Thinned r (filename :: filenames) (filename :: kept)
  | drop {filename : String} {failure : Failure} (hfailure : r.pend filename = .error failure)
    {filenames kept : List String} (h : Thinned r filenames kept) :
    Thinned r (filename :: filenames) kept

theorem Thinned.sublist {filenames kept : List String} (h : r.Thinned filenames kept) :
    kept.Sublist filenames := by
  induction h with
  | nil => exact List.Sublist.slnil
  | keep filename _ ih => exact ih.cons_cons filename
  | drop _ _ ih => exact ih.cons _

theorem Thinned.pending_eq {filenames kept : List String} (h : r.Thinned filenames kept) :
    pending (r.attempts kept) = pending (r.attempts filenames) := by
  rw [pending_attempts, pending_attempts]
  induction h with
  | nil => rfl
  | keep filename _ ih => rw [List.filterMap_cons, List.filterMap_cons, ih]
  | drop hfailure _ ih =>
    rw [List.filterMap_cons_none, ih]
    rw [hfailure]
    rfl

/-- The files of a collection that no failure stops depend only on the names that can be made. -/
theorem rename_map_renamed {filenames : List String}
    (h : firstStop? (r.attempts filenames) = none) :
    (r.rename filenames).map Report.renamed =
      ((r.numbering filenames).check (pending (r.attempts filenames)) >>= fun _ =>
        finishAll (r.numbering filenames) (pending (r.attempts filenames))) := by
  rw [rename, settle, h, numbering]
  simp only
  cases (Numbering.ofNames (pending (r.attempts filenames))).check
      (pending (r.attempts filenames)) with
  | error failure => rfl
  | ok =>
    simp only [bind, Except.bind]
    cases finishAll (Numbering.ofNames (pending (r.attempts filenames)))
      (pending (r.attempts filenames)) <;> rfl

/-- Only a field that is too wide stops a collection before its values are numbered. -/
theorem firstStop?_eq_none_or_tooWide (filenames : List String) :
    firstStop? (r.attempts filenames) = none ∨ r.rename filenames = .error .paddingTooWide := by
  cases hstop : firstStop? (r.attempts filenames) with
  | none => exact Or.inl rfl
  | some failure =>
    obtain ⟨rfl, -⟩ := firstStop?_eq_some_iff.mp hstop
    exact Or.inr (by rw [rename, settle, hstop])

/-- Without names that cannot be made, the files are the same. -/
theorem Thinned.map_renamed_eq {filenames kept : List String} (h : r.Thinned filenames kept)
    (hstop : firstStop? (r.attempts filenames) = none) :
    (r.rename kept).map Report.renamed = (r.rename filenames).map Report.renamed := by
  have hkept := firstStop?_eq_none_of_subset h.sublist.subset hstop
  rw [rename_map_renamed hstop, rename_map_renamed hkept, numbering, numbering, h.pending_eq]

/-- A name that is left out of every collection. -/
def LeavesOut (r : Renamer) (filename : String) : Prop :=
  ∃ failure, r.pend filename = .error failure ∧ failure.concernsOneFile = true

theorem thinned_filter {filenames : List String} {kept : String → Bool}
    (h : ∀ filename ∈ filenames, kept filename = false → r.LeavesOut filename) :
    r.Thinned filenames (filenames.filter kept) := by
  induction filenames with
  | nil => exact Thinned.nil
  | cons filename rest ih =>
    obtain ⟨hfirst, hrest⟩ := List.forall_mem_cons.mp h
    rw [List.filter_cons]
    split
    · exact (ih hrest).keep filename
    · rename_i hkept
      obtain ⟨failure, hfailure, -⟩ := hfirst (eq_false_of_ne_true hkept)
      exact (ih hrest).drop hfailure

/-- Without names that are left out anyway, a collection has the same files, or the same failure. -/
theorem map_renamed_filter {filenames : List String} {kept : String → Bool}
    (h : ∀ filename ∈ filenames, kept filename = false → r.LeavesOut filename) :
    (r.rename (filenames.filter kept)).map Report.renamed =
      (r.rename filenames).map Report.renamed := by
  cases hstop : firstStop? (r.attempts filenames) with
  | none => exact (thinned_filter h).map_renamed_eq hstop
  | some failure =>
    obtain ⟨rfl, filename, hfilename, hstops⟩ := firstStop?_eq_some_iff.mp hstop
    -- what stops the collection is no name that is left out
    have hkept : kept filename = true := by
      refine eq_true_of_ne_false fun hnot => ?_
      obtain ⟨failure, hfailure, hone⟩ := h filename hfilename hnot
      obtain rfl := Except.error.inj (hfailure.symm.trans (pend_eq_tooWide_iff.mpr hstops))
      simp [Failure.concernsOneFile] at hone
    have hstop' := firstStop?_eq_some_iff.mpr
      ⟨rfl, filename, List.mem_filter.mpr ⟨hfilename, hkept⟩, hstops⟩
    rw [rename, rename, settle, settle, hstop, hstop']

/-- Names that cannot be made do not change what becomes of the others: a collection has the same
files without them, and the same number is too long. No value of such a name is numbered. -/
theorem rename_thinned (r : Renamer) {filenames kept : List String}
    (h : r.Thinned filenames kept) :
    (∀ report, r.rename filenames = .ok report →
      ∃ other, r.rename kept = .ok other ∧ other.renamed = report.renamed) ∧
    (∀ value number width, r.rename filenames = .error (.widthOverflow value number width) →
      r.rename kept = .error (.widthOverflow value number width)) ∧
    r.numbering kept = r.numbering filenames ∧
    ∀ value, value ∈ (r.numbering filenames).values ↔
      ∃ filename ∈ filenames, (∃ name, r.pend filename = .ok name) ∧
        ∃ w, (value, w) ∈ r.demands filename := by
  refine ⟨?_, ?_, ?_, fun value => mem_values_numbering_iff⟩
  · intro report hreport
    have hsame := h.map_renamed_eq (rename_eq_ok_iff.mp hreport).1
    rw [hreport] at hsame
    exact map_eq_ok_iff.mp hsame
  · intro value number width hoverflow
    rcases firstStop?_eq_none_or_tooWide (r := r) filenames with hstop | hwide
    · have hsame := h.map_renamed_eq hstop
      rw [hoverflow] at hsame
      exact map_eq_error_iff.mp hsame
    · rw [hwide] at hoverflow
      simp at hoverflow
  · rw [numbering, numbering, h.pending_eq]

/-- Names of two channels each that become two numbers. -/
def mixtures : Renamer where
  input := ⟨[.field ⟨"first", .character .unbounded⟩, .literal "_",
    .field ⟨"second", .character .unbounded⟩, .literal ".tif"]⟩
  output := ⟨[.field ⟨"first", .digit (.fixed 1)⟩, .literal "_",
    .field ⟨"second", .digit .unbounded⟩, .literal ".tif"]⟩
  fieldCount_eq := rfl
  compiledSize_le := by decide +kernel

/-- The name that goes has a value in its first field that would be the first one, but none in its
second. -/
theorem rename_thinned_mixtures :
    mixtures.Thinned ["GFP_DAPI.tif", "CY_.tif"] ["GFP_DAPI.tif"] ∧
    mixtures.rename ["GFP_DAPI.tif", "CY_.tif"] =
      .ok ⟨[⟨"GFP_DAPI.tif", "2_1.tif"⟩],
        [⟨"CY_.tif", .invalidFieldValue "second" "" .emptyText⟩]⟩ ∧
    (∃ other, mixtures.rename ["GFP_DAPI.tif"] = .ok other ∧
      other.renamed = [⟨"GFP_DAPI.tif", "2_1.tif"⟩]) ∧
    "CY" ∉ (mixtures.numbering ["GFP_DAPI.tif", "CY_.tif"]).values := by
  have hfailure : mixtures.pend "CY_.tif" =
      .error (.invalidFieldValue "second" "" .emptyText) := by decide +kernel
  have h : mixtures.Thinned ["GFP_DAPI.tif", "CY_.tif"] ["GFP_DAPI.tif"] :=
    (Thinned.drop hfailure Thinned.nil).keep "GFP_DAPI.tif"
  have hreport : mixtures.rename ["GFP_DAPI.tif", "CY_.tif"] =
      .ok ⟨[⟨"GFP_DAPI.tif", "2_1.tif"⟩],
        [⟨"CY_.tif", .invalidFieldValue "second" "" .emptyText⟩]⟩ := by decide +kernel
  exact ⟨h, hreport, (rename_thinned mixtures h).1 _ hreport, by decide +kernel⟩

end Renamer

end PatternRename
