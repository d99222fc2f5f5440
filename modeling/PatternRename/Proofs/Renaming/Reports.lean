import PatternRename.Proofs.Renaming.Collection

/-!
# Reports

A report tells for every name of a collection what became of it. Its files are the names that can
be made, and the new name of a file depends on its old name and on the numbering of the collection
alone; so a file is found by its old name, however often and wherever that stands.

## Main definitions

- `Renamer.numbering` — the numbering of a collection

## Main results

- `Renamer.mem_renamed_iff` — the files of a report
- `Renamer.target?_eq_some_iff` — the look-up of a new name
- `Renamer.mem_values_numbering_iff` — the values that are numbered
-/

namespace PatternRename

namespace Renamer

theorem pending_attempts (r : Renamer) (filenames : List String) :
    pending (r.attempts filenames) =
      filenames.filterMap fun filename => (r.pend filename).toOption := by
  rw [pending, attempts, List.filterMap_map]
  rfl

/-- The numbering of the values that wait in the new names of a collection. -/
def numbering (r : Renamer) (filenames : List String) : Numbering :=
  Numbering.ofNames (pending (r.attempts filenames))

/-- The numbered values are the ones that the names which can be made demand. -/
theorem mem_values_numbering_iff {r : Renamer} {filenames : List String} {value : String} :
    value ∈ (r.numbering filenames).values ↔
      ∃ filename ∈ filenames, (∃ name, r.pend filename = .ok name) ∧
        ∃ w, (value, w) ∈ r.demands filename := by
  rw [numbering, Numbering.ofNames, Numbering.mem_values_ofValues, PendingName.allDeferred,
    List.map_flatMap, List.mem_flatMap]
  constructor
  · rintro ⟨name, hname, hvalue⟩
    obtain ⟨filename, hfilename, hpend⟩ := mem_pending_iff.mp hname
    obtain ⟨d, hd, rfl⟩ := List.mem_map.mp hvalue
    refine ⟨filename, hfilename, ⟨name, hpend⟩, d.width, ?_⟩
    rw [← deferred_of_pend hpend]
    exact List.mem_map_of_mem hd
  · rintro ⟨filename, hfilename, ⟨name, hpend⟩, w, hdemand⟩
    refine ⟨name, mem_pending_iff.mpr ⟨filename, hfilename, hpend⟩, ?_⟩
    rw [← deferred_of_pend hpend] at hdemand
    obtain ⟨d, hd, hvalue⟩ := List.mem_map.mp hdemand
    rw [List.mem_map]
    exact ⟨d, hd, (Prod.mk.inj hvalue).1⟩

/-- The files of a report are the names that can be made, each with the new name that it has once
the values are numbered. -/
theorem mem_renamed_iff {r : Renamer} {filenames : List String} {report : Report}
    (h : r.rename filenames = .ok report) {file : RenamedFile} :
    file ∈ report.renamed ↔ file.source ∈ filenames ∧ ∃ name, r.pend file.source = .ok name ∧
      (r.numbering filenames).finish name = .ok file.target := by
  obtain ⟨-, -, hfinish, -⟩ := rename_eq_ok_iff.mp h
  rw [finishAll_eq_mapM] at hfinish
  rw [mem_iff_of_mapM_eq_ok hfinish]
  constructor
  · rintro ⟨name, hname, hfile⟩
    obtain ⟨hsource, htarget⟩ := finishFile_eq_ok_iff.mp hfile
    obtain ⟨filename, hfilename, hpend⟩ := mem_pending_iff.mp hname
    rw [hsource, source_of_pend hpend]
    exact ⟨hfilename, name, hpend, htarget⟩
  · rintro ⟨hsource, name, hpend, htarget⟩
    refine ⟨name, mem_pending_iff.mpr ⟨file.source, hsource, hpend⟩, ?_⟩
    exact finishFile_eq_ok_iff.mpr ⟨(source_of_pend hpend).symm, htarget⟩

/-- A file with the same old name has the same new name. -/
theorem target_eq_of_source_eq {r : Renamer} {filenames : List String} {report : Report}
    (h : r.rename filenames = .ok report) {file other : RenamedFile}
    (hfile : file ∈ report.renamed) (hother : other ∈ report.renamed)
    (hsource : file.source = other.source) : file.target = other.target := by
  obtain ⟨-, name, hpend, htarget⟩ := (mem_renamed_iff h).mp hfile
  obtain ⟨-, name', hpend', htarget'⟩ := (mem_renamed_iff h).mp hother
  rw [hsource, hpend', Except.ok.injEq] at hpend
  rw [hpend, htarget, Except.ok.injEq] at htarget'
  exact htarget'

/-- The look-up of a new name finds the file, whichever mention of it comes first. -/
theorem target?_eq_some_iff {r : Renamer} {filenames : List String} {report : Report}
    (h : r.rename filenames = .ok report) {source target : String} :
    report.target? source = some target ↔ ⟨source, target⟩ ∈ report.renamed := by
  rw [Report.target?, Option.map_eq_some_iff]
  constructor
  · rintro ⟨file, hfile, rfl⟩
    have hsource : file.source = source := by simpa using List.find?_some hfile
    rw [← hsource]
    exact List.mem_of_find?_eq_some hfile
  · intro hmem
    cases hfind : report.renamed.find? (·.source == source) with
    | none =>
      have := List.find?_eq_none.mp hfind _ hmem
      simp at this
    | some file =>
      have hsource : file.source = source := by simpa using List.find?_some hfind
      exact ⟨file, rfl,
        target_eq_of_source_eq h (List.mem_of_find?_eq_some hfind) hmem hsource⟩

/-- No failure stops a collection whose names are among those of one that no failure stops. -/
theorem firstStop?_eq_none_of_subset {r : Renamer} {filenames others : List String}
    (hsubset : others ⊆ filenames) (h : firstStop? (r.attempts filenames) = none) :
    firstStop? (r.attempts others) = none := by
  rw [firstStop?, List.findSome?_eq_none_iff] at h ⊢
  intro attempt hattempt
  obtain ⟨filename, hfilename, rfl⟩ := List.mem_map.mp hattempt
  exact h _ (List.mem_map_of_mem (hsubset hfilename))

/-- A name that can be made is in the report. -/
theorem exists_mem_renamed {r : Renamer} {filenames : List String} {report : Report}
    (h : r.rename filenames = .ok report) {source : String} (hsource : source ∈ filenames)
    {name : PendingName} (hpend : r.pend source = .ok name) :
    ∃ target, ⟨source, target⟩ ∈ report.renamed := by
  obtain ⟨-, -, hfinish, -⟩ := rename_eq_ok_iff.mp h
  have hname : name ∈ pending (r.attempts filenames) := mem_pending_iff.mpr ⟨source, hsource, hpend⟩
  have hmem : source ∈ report.renamed.map RenamedFile.source := by
    rw [map_source_of_finishAll hfinish, ← source_of_pend hpend]
    exact List.mem_map_of_mem hname
  obtain ⟨file, hfile, rfl⟩ := List.mem_map.mp hmem
  exact ⟨file.target, hfile⟩

/-! ### Names without numbers -/

theorem demands_eq_nil {r : Renamer} (hpairs : ∀ pair ∈ r.pairs, isNumbered pair = false)
    (filename : String) : r.demands filename = [] := by
  rw [demands]
  split
  · rfl
  · rw [demandsOf, List.filterMap_eq_nil_iff]
    rintro ⟨pair, raw⟩ hmem
    rw [demand?, hpairs pair (List.of_mem_zip hmem).1, if_neg Bool.false_ne_true]

/-- Where no text goes into a number, every collection has a report. -/
theorem exists_rename_of_not_isNumbered {r : Renamer} (hw : r.output.Paddable)
    (hpairs : ∀ pair ∈ r.pairs, isNumbered pair = false) (filenames : List String) :
    ∃ report, r.rename filenames = .ok report := by
  obtain ⟨found, hlowest, houtcome⟩ := rename_of_lowest hw filenames
  cases found with
  | none => exact houtcome
  | some o =>
    -- the value of the overflow would be one that goes into a number
    obtain ⟨⟨filename, -, -, hdemand⟩, -, -⟩ := hlowest.1
    rw [demands_eq_nil hpairs] at hdemand
    exact absurd hdemand List.not_mem_nil

theorem eq_of_gives_map_text {numbering : Numbering} {texts outs : List String}
    (h : List.Forall₂ numbering.Gives (texts.map .text) outs) : outs = texts := by
  rw [List.forall₂_map_left_iff] at h
  have heq : List.Forall₂ (· = ·) texts outs := h.imp fun _ _ hgives => Except.ok.inj hgives
  rw [List.forall₂_eq_eq_eq] at heq
  exact heq.symm

/-- A name with values that are all written at once has the same new name in any collection. -/
theorem target?_of_texts {r : Renamer} {filenames : List String} {report : Report}
    (h : r.rename filenames = .ok report) {source : String} (hsource : source ∈ filenames)
    {m : Match} (hm : r.input.find source = .ok m) {texts : List String}
    (htexts : reencodeAll 0 r.pairs m.values = .ok (texts.map .text)) :
    report.target? source = some (m.before ++ Pattern.fill r.output.tokens texts ++ m.after) := by
  have hpend := pend_eq_ok_iff.mpr ⟨m, texts.map .text, hm, htexts, rfl⟩
  obtain ⟨target, hmem⟩ := exists_mem_renamed h hsource hpend
  obtain ⟨-, name, hname, htarget⟩ := (mem_renamed_iff h).mp hmem
  have hsourceEq := source_of_pend hname
  rw [← hsourceEq] at hname
  obtain ⟨found, segments, outs, hfound, hsegments, houts, -, rfl⟩ :=
    exists_texts_of_finish hname htarget
  obtain rfl : found = m := by
    rw [hsourceEq, hm] at hfound
    exact (Except.ok.inj hfound).symm
  obtain rfl : segments = texts.map .text := by
    rw [htexts] at hsegments
    exact (Except.ok.inj hsegments).symm
  rw [target?_eq_some_iff h, ← eq_of_gives_map_text houts]
  exact hmem

/-- Where no text goes into a number, such a name has a new name in every collection. -/
theorem exists_target?_of_texts {r : Renamer} (hw : r.output.Paddable)
    (hpairs : ∀ pair ∈ r.pairs, isNumbered pair = false) {source : String} {m : Match}
    (hm : r.input.find source = .ok m) {texts : List String}
    (htexts : reencodeAll 0 r.pairs m.values = .ok (texts.map .text)) (filenames : List String)
    (hsource : source ∈ filenames) :
    ∃ report, r.rename filenames = .ok report ∧
      report.target? source =
        some (m.before ++ Pattern.fill r.output.tokens texts ++ m.after) := by
  obtain ⟨report, hreport⟩ := exists_rename_of_not_isNumbered hw hpairs filenames
  exact ⟨report, hreport, target?_of_texts hreport hsource hm htexts⟩

end Renamer

end PatternRename
