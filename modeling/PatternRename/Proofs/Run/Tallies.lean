import PatternRename.Proofs.Renaming.Division
import PatternRename.Proofs.Renaming.RoundTrip
import PatternRename.Proofs.Run.DryRun

/-!
# The counts of a run

A run counts in three passes: the names that are left out, the new names that come more than once,
and the copies. Each file that was found is counted once as renamed or left out, and each failure
once as a name that does not fit or as an error.

## Main definitions

- `Summary.AddsUp` — a summary whose counts agree with a report

## Main results

- `length_collisions` — a collision is a file whose new name is not counted as a new one
- `addsUp_of_process` — the counts of a run
-/

namespace PatternRename

/-! ### Collisions -/

/-- Going on behind earlier files, every file either collides or brings a new name. -/
theorem length_collisionsFrom (earlier files : List RenamedFile) :
    (collisionsFrom earlier files).length +
        ((earlier ++ files).map RenamedFile.target).toFinset.card =
      files.length + (earlier.map RenamedFile.target).toFinset.card := by
  induction files generalizing earlier with
  | nil => simp [collisionsFrom]
  | cons file rest ih =>
    have hall : ((earlier ++ file :: rest).map RenamedFile.target).toFinset =
        ((file :: earlier ++ rest).map RenamedFile.target).toFinset :=
      List.toFinset_eq_of_perm _ _ (List.perm_middle.map _)
    have hrest := ih (file :: earlier)
    rw [List.map_cons, List.toFinset_cons] at hrest
    rw [hall, collisionsFrom]
    cases hfind : earlier.find? (·.target == file.target) with
    | some previous =>
      -- the new name is one of the earlier ones
      have hmem : file.target ∈ (earlier.map RenamedFile.target).toFinset := by
        have htarget : previous.target = file.target := by simpa using List.find?_some hfind
        rw [List.mem_toFinset, ← htarget]
        exact List.mem_map_of_mem (List.mem_of_find?_eq_some hfind)
      rw [Finset.insert_eq_of_mem hmem] at hrest
      simp only [List.length_cons]
      omega
    | none =>
      have hnot : file.target ∉ (earlier.map RenamedFile.target).toFinset := by
        rw [List.mem_toFinset, List.mem_map]
        rintro ⟨other, hother, htarget⟩
        have := List.find?_eq_none.mp hfind other hother
        simp [htarget] at this
      rw [Finset.card_insert_of_notMem hnot] at hrest
      simp only [List.length_cons]
      omega

/-- The files that do not collide are as many as the different new names. -/
theorem length_collisions (files : List RenamedFile) :
    (collisions files).length + (files.map RenamedFile.target).toFinset.card = files.length :=
  length_collisionsFrom [] files

/-! ### Names that are left out -/

def Failure.isInvalidFieldValue : Failure → Bool
  | .invalidFieldValue .. => true
  | _ => false

/-- A failure that concerns one file is a name that does not fit or a value that cannot be
written. -/
theorem Failure.isInvalidFieldValue_of_concernsOneFile {failure : Failure}
    (h : failure.concernsOneFile = true) : failure.isInvalidFieldValue = !failure.isNoMatch := by
  cases failure <;> simp_all [concernsOneFile, isInvalidFieldValue, isNoMatch]

theorem Renamer.concernsOneFile_of_mem_leftOut {r : Renamer} {filenames : List String}
    {report : Report} (h : r.rename filenames = .ok report) {other : LeftOut}
    (hother : other ∈ report.leftOut) : other.failure.concernsOneFile = true := by
  rw [(Renamer.rename_eq_ok_iff.mp h).2.2.2, leftOut, List.mem_filterMap] at hother
  obtain ⟨⟨filename, outcome⟩, -, hsome⟩ := hother
  cases outcome with
  | ok name => simp at hsome
  | error failure =>
    rw [Option.ite_none_right_eq_some] at hsome
    rw [← Option.some.inj hsome.2]
    exact hsome.1

/-- Every name that is left out does not fit or has a value that cannot be written. -/
theorem Renamer.countP_leftOut {r : Renamer} {filenames : List String} {report : Report}
    (h : r.rename filenames = .ok report) :
    report.leftOut.countP (!·.failure.isNoMatch) =
      report.leftOut.countP (·.failure.isInvalidFieldValue) := by
  apply List.countP_congr
  intro other hother
  rw [Failure.isInvalidFieldValue_of_concernsOneFile (concernsOneFile_of_mem_leftOut h hother)]

theorem Renamer.length_leftOut {r : Renamer} {filenames : List String} {report : Report}
    (h : r.rename filenames = .ok report) :
    report.leftOut.length = report.leftOut.countP (·.failure.isNoMatch) +
      report.leftOut.countP (·.failure.isInvalidFieldValue) := by
  rw [← countP_leftOut h, List.length_eq_countP_add_countP fun other => other.failure.isNoMatch]
  simp only [Bool.not_eq_true, Bool.decide_eq_false]

/-! ### Summaries -/

/-- The counts of a summary agree with a report on the names that were found, when so many of its
files could not be copied. -/
structure Summary.AddsUp (summary : Summary) (report : Report) (failed : Nat) : Prop where
  renamed_eq : summary.tally.renamed = report.renamed.length
  skipped_eq : summary.skipped = report.leftOut.map LeftOut.filename
  scanned_eq : summary.tally.scanned = summary.tally.renamed + summary.skipped.length
  unmatched_eq : summary.tally.unmatched = report.leftOut.countP (·.failure.isNoMatch)
  skipped_length_eq : summary.skipped.length =
    summary.tally.unmatched + report.leftOut.countP (·.failure.isInvalidFieldValue)
  errors_eq : summary.tally.errors =
    report.leftOut.countP (·.failure.isInvalidFieldValue) + failed
  collisions_eq : summary.tally.collisions +
    (report.renamed.map RenamedFile.target).toFinset.card = summary.tally.renamed

namespace Plan

variable {tree : FileTree} {settings : Settings} {plan : Plan}

/-- The copies of a plan that were tried leave a summary that agrees with its report. -/
theorem addsUp_withCopies (hplan : tree.plan settings = .ok plan) (dryRun : Bool)
    {copied failed : Nat} (hcopies : copied + failed = plan.report.renamed.length) :
    ((plan.summary dryRun).withCopies copied failed).AddsUp plan.report failed := by
  obtain ⟨-, -, hreport⟩ := FileTree.plan_eq_ok_iff.mp hplan
  have hnames : plan.listing.files.length =
      plan.report.renamed.length + plan.report.leftOut.length := by
    rw [← (Renamer.divided_of_rename hreport).length_eq, Listing.names, List.length_map]
  have hleftOut := Renamer.length_leftOut hreport
  have hcollisions := length_collisions plan.report.renamed
  rw [summary_eq, Summary.withCopies]
  refine ⟨?_, rfl, ?_, Nat.add_zero _, ?_, ?_, ?_⟩
  · exact (Nat.zero_add _).trans hcopies
  · simp only [List.length_map]
    omega
  · simp only [List.length_map]
    omega
  · exact congrArg (· + failed) (Renamer.countP_leftOut hreport)
  · dsimp only
    omega

theorem addsUp_withPlans (hplan : tree.plan settings = .ok plan) (dryRun : Bool) :
    ((plan.summary dryRun).withPlans plan.copies).AddsUp plan.report 0 := by
  have hlength : plan.copies.length + 0 = plan.report.renamed.length := List.length_map _
  have h := addsUp_withCopies hplan dryRun hlength
  -- what the planned copies count is what as many successful ones would
  exact ⟨h.renamed_eq, h.skipped_eq, h.scanned_eq, h.unmatched_eq, h.skipped_length_eq, h.errors_eq,
    h.collisions_eq⟩

end Plan

namespace RunState

/-- The summary of a run tells of its plan, and in a real run of the copies that succeed and those
that fail. -/
theorem summary_of_process {settings : Settings} {dryRun : Bool} {state after : RunState}
    {summary : Summary} (h : state.perform (process settings dryRun) = (.ok summary, after)) :
    ∃ plan, state.files.plan settings = .ok plan ∧
      (dryRun = true → summary = (plan.summary true).withPlans plan.copies) ∧
      (dryRun = false → summary = (plan.summary false).withCopies
        (state.copied plan.copies).length (state.failed plan.copies).length) := by
  cases dryRun with
  | false =>
    obtain ⟨plan, hplan, -, -, hsummary, -⟩ := exists_summary_of_process h
    exact ⟨plan, hplan, by simp, fun _ => hsummary⟩
  | true =>
    obtain ⟨mid, -, hprocess⟩ := perform_process state settings true
    rw [h] at hprocess
    cases hplan : state.files.plan settings with
    | error failure => simp [hplan] at hprocess
    | ok plan =>
      rw [hplan] at hprocess
      obtain ⟨last, heq, -⟩ := hprocess
      obtain ⟨hsummary, -⟩ := summary_copyAll_of_dryRun plan.task plan.report.renamed
        (plan.dryRun_summary true) mid
      refine ⟨plan, rfl, fun _ => ?_, by simp⟩
      exact (Except.ok.inj (Prod.mk.inj heq).1).trans hsummary

end RunState

/-- The counts of a run that succeeds agree with the report on the names that it found. In a real
run the files that could not be copied are the copies that fail when they are tried one after the
other, and nothing is planned. In a dry run no copy fails or is written, and all are planned. -/
theorem addsUp_of_process {settings : Settings} {dryRun : Bool} {state after : RunState}
    {summary : Summary} (h : state.perform (process settings dryRun) = (.ok summary, after)) :
    ∃ task listing report failed, settings.task = .ok task ∧
      (state.perform (listDirectory task.inputDirectory)).1 = .ok listing ∧
      task.renamer.rename listing.names = .ok report ∧
      summary.tally.scanned = listing.files.length ∧ summary.AddsUp report failed ∧
      (dryRun = false →
        failed = (state.failed (report.renamed.map task.copyOf)).length ∧
        summary.tally.renamed = summary.tally.copied + failed ∧ summary.planned = []) ∧
      (dryRun = true →
        failed = 0 ∧ summary.tally.copied = 0 ∧
        summary.planned.length = summary.tally.renamed) := by
  obtain ⟨plan, hplan, hdry, hreal⟩ := RunState.summary_of_process h
  obtain ⟨htask, hlisting, hreport⟩ := FileTree.plan_eq_ok_iff.mp hplan
  have hfound : (state.perform (listDirectory plan.task.inputDirectory)).1 = .ok plan.listing := by
    rw [RunState.outcome_listDirectory, hlisting]
  have hscanned : ∀ dry, (plan.summary dry).tally.scanned = plan.listing.files.length :=
    fun dry => by rw [Plan.summary_eq]
  have hnone : ∀ dry, (plan.summary dry).tally.renamed = 0 ∧ (plan.summary dry).tally.copied = 0 :=
    fun dry => by rw [Plan.summary_eq]; exact ⟨rfl, rfl⟩
  cases dryRun with
  | false =>
    obtain rfl := hreal rfl
    have hcopies := state.length_copied_add_length_failed plan.copies
    refine ⟨plan.task, plan.listing, plan.report, _, (FileTree.taskFor_eq_ok_iff.mp htask).1,
      hfound, hreport, hscanned false, Plan.addsUp_withCopies hplan false ?_, fun _ => ⟨rfl, ?_, ?_⟩,
      by simp⟩
    · rw [hcopies, Plan.copies, List.length_map]
    · simp only [Summary.withCopies, (hnone false).1, (hnone false).2, Nat.zero_add, Plan.copies]
    · exact plan.planned_summary false
  | true =>
    obtain rfl := hdry rfl
    refine ⟨plan.task, plan.listing, plan.report, 0, (FileTree.taskFor_eq_ok_iff.mp htask).1,
      hfound, hreport, hscanned true, Plan.addsUp_withPlans hplan true, by simp, fun _ => ⟨rfl, ?_, ?_⟩⟩
    · exact (hnone true).2
    · simp only [Summary.withPlans, plan.planned_summary, (hnone true).1, List.nil_append,
        Nat.zero_add]

/-- Settings that write heights with two digits. -/
def heights : Settings where
  inputDirectory := some (.ofText "in")
  outputDirectory := some (.ofText "out")
  inputPattern := some "x{height:f+}.tif"
  outputPattern := some "{height:dd}.tif"

def heightsTask : Task where
  inputDirectory := .ofText "in"
  outputDirectory := .ofText "out"
  inputPattern := "x{height:f+}.tif"
  outputPattern := "{height:dd}.tif"
  renamer := ⟨⟨[.literal "x", .field ⟨"height", .float⟩, .literal ".tif"]⟩,
    ⟨[.field ⟨"height", .digit (.fixed 2)⟩, .literal ".tif"]⟩, by decide +kernel, by decide +kernel⟩

def fiveNames : List String :=
  ["readme", "x01.tif", "x1.5.tif", "x1.tif", "x3.tif"]

/-- Five files, and a directory where the copy of the last one would be. -/
def fiveFiles : RunState where
  files := ⟨([Text.Utf8.octets "in"], .directory) :: ([Text.Utf8.octets "out"], .directory) ::
    ([Text.Utf8.octets "out", Text.Utf8.octets "03.tif"], .directory) :: fiveNames.map fun name =>
      ([Text.Utf8.octets "in", Text.Utf8.octets name], .file (Text.Utf8.octets "data")), []⟩

theorem plan_fiveFiles : fiveFiles.files.plan heights = .ok ⟨heightsTask,
    ⟨fiveNames.map fun name => ⟨.ofText ("in/" ++ name), name⟩, []⟩,
    ⟨[⟨"x01.tif", "01.tif"⟩, ⟨"x1.tif", "01.tif"⟩, ⟨"x3.tif", "03.tif"⟩],
      [⟨"readme", .noMatch heightsTask.inputPattern "readme"⟩,
        ⟨"x1.5.tif", .invalidFieldValue "height" "1.5" (.notAnInteger 2)⟩]⟩⟩ := by
  have hrenamer : Renamer.ofTexts heightsTask.inputPattern heightsTask.outputPattern =
      .ok heightsTask.renamer :=
    Renamer.ofTexts_eq_ok_iff.mpr ⟨by decide +kernel, by decide +kernel⟩
  have htask : heights.task = .ok heightsTask :=
    Settings.task_eq_ok_iff.mpr ⟨rfl, rfl, rfl, rfl, hrenamer⟩
  have hlisting : fiveFiles.files.listing (.ofText "in") =
      .ok ⟨fiveNames.map fun name => ⟨.ofText ("in/" ++ name), name⟩, []⟩ := by
    apply FileTree.listing_of_sorted
    · decide +kernel
    · exact (by decide +kernel : fiveFiles.files.list (.ofText "in") =
        .ok (fiveNames.map fun name => (Text.Utf8.octets name, .file)))
    · decide +kernel
    · decide +kernel
  refine FileTree.plan_eq_ok_iff.mpr ⟨?_, hlisting, by decide +kernel⟩
  exact FileTree.taskFor_eq_ok_iff.mpr ⟨htask, by decide +kernel⟩

/-- One name does not fit, one has a value that cannot be written, two files get one name, and one
copy fails. -/
theorem addsUp_of_process_fiveFiles :
    ∃ summary after, fiveFiles.perform (process heights false) = (.ok summary, after) ∧
      summary.tally = ⟨5, 3, 2, 1, 1, 2⟩ ∧ summary.skipped = ["readme", "x1.5.tif"] ∧
      summary.planned = [] := by
  obtain ⟨mid, -, hprocess⟩ := RunState.perform_process fiveFiles heights false
  rw [plan_fiveFiles] at hprocess
  obtain ⟨summary, after, h⟩ :
      ∃ summary after, fiveFiles.perform (process heights false) = (.ok summary, after) := by
    obtain ⟨after, h, -⟩ := hprocess
    exact ⟨_, after, h⟩
  obtain ⟨task, listing, report, failed, htask, hlisting, hreport, hscanned, hadds, hreal, -⟩ :=
    addsUp_of_process h
  obtain ⟨rfl, rfl, rfl⟩ := Plan.mk.inj (RunState.eq_of_plan plan_fiveFiles htask hlisting hreport)
  obtain ⟨hfailed, hcopied, hplanned⟩ := hreal rfl
  -- only the copy with a directory in its place fails
  have hone : failed = 1 := hfailed.trans (by decide +kernel)
  obtain ⟨hrenamed, hskipped, -, hunmatched, -, herrors, hcollisions⟩ := hadds
  refine ⟨summary, after, h, ?_, hskipped, hplanned⟩
  have hcard : ([⟨"x01.tif", "01.tif"⟩, ⟨"x1.tif", "01.tif"⟩, ⟨"x3.tif", "03.tif"⟩].map
    RenamedFile.target).toFinset.card = 2 := by decide +kernel
  have hfive : summary.tally.scanned = 5 := hscanned
  have hthree : summary.tally.renamed = 3 := hrenamed
  have hnoMatch : summary.tally.unmatched = 1 := hunmatched
  have htwo : summary.tally.errors = 1 + failed := herrors
  rw [hcard] at hcollisions
  generalize summary.tally = tally at *
  cases tally
  simp only [Tally.mk.injEq] at *
  omega

end PatternRename
