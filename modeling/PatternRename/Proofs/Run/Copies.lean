import PatternRename.Proofs.Run.CopySteps

/-!
# The copies of a run

The copies of a run change the files as copies on a tree do. Those of them succeed that are written
on the tree and can be given the times of their sources.

## Main definitions

- `FileTree.copyFiles` — copies one after the other
- `FileTree.copied`, `FileTree.failed` — those of them that are written, and those that are not
- `RunState.copied`, `RunState.failed` — those of them that succeed in a run, and those that fail
- `Summary.withCopies` — a summary with copies that were tried

## Main results

- `FileTree.takes_of_mem_copied` — a path that a file was copied to takes every later copy
- `FileTree.SameBut.copyFiles` — copies do not depend on hidden files
- `RunState.run_writeCopy`, `RunState.run_copyAll` — the copies of a run, on a tree
- `RunState.keeps_copyAll` — what all copies of a run keep
- `RunState.exists_plan_of_process` — a run that succeeds leaves what the copies of its plan leave
-/

namespace PatternRename

namespace FileTree

def copyFiles (tree : FileTree) (copies : List PlannedCopy) : FileTree :=
  copies.foldl (fun files copy => (files.writeCopy copy).1) tree

/-- The copies that are written when all are tried one after the other. -/
def copied (tree : FileTree) : List PlannedCopy → List PlannedCopy
  | [] => []
  | copy :: rest =>
    if (tree.writeCopy copy).2 = none then copy :: copied (tree.writeCopy copy).1 rest
    else copied (tree.writeCopy copy).1 rest

/-- The copies that are not written when all are tried one after the other. -/
def failed (tree : FileTree) : List PlannedCopy → List PlannedCopy
  | [] => []
  | copy :: rest =>
    if (tree.writeCopy copy).2 = none then failed (tree.writeCopy copy).1 rest
    else copy :: failed (tree.writeCopy copy).1 rest

theorem length_copied_add_length_failed (tree : FileTree) (copies : List PlannedCopy) :
    (tree.copied copies).length + (tree.failed copies).length = copies.length := by
  induction copies generalizing tree with
  | nil => rfl
  | cons copy rest ih =>
    rw [copied, failed, List.length_cons, ← ih (tree.writeCopy copy).1]
    split <;> simp only [List.length_cons] <;> omega

theorem here_copyFiles (tree : FileTree) (copies : List PlannedCopy) :
    (tree.copyFiles copies).here = tree.here := by
  induction copies generalizing tree with
  | nil => rfl
  | cons copy rest ih => exact (ih _).trans (content?_writeCopy tree copy).2

/-- A tree grows with copies, whichever of them are written. -/
theorem grows_copyFiles (tree : FileTree) (copies : List PlannedCopy) :
    Grows tree (tree.copyFiles copies) := by
  induction copies generalizing tree with
  | nil => exact Grows.refl tree
  | cons copy rest ih => exact (grows_writeCopy tree copy).trans (ih _)

theorem copyFiles_append (tree : FileTree) (front back : List PlannedCopy) :
    tree.copyFiles (front ++ back) = (tree.copyFiles front).copyFiles back :=
  List.foldl_append

/-- A copy that is written is so after the copies before it. -/
theorem exists_of_mem_copied {tree : FileTree} {copies : List PlannedCopy} {copy : PlannedCopy}
    (h : copy ∈ tree.copied copies) :
    ∃ before later, copies = before ++ copy :: later ∧
      ((tree.copyFiles before).writeCopy copy).2 = none := by
  induction copies generalizing tree with
  | nil => exact absurd h List.not_mem_nil
  | cons first rest ih =>
    by_cases hfirst : copy = first ∧ (tree.writeCopy first).2 = none
    · obtain ⟨rfl, hnone⟩ := hfirst
      exact ⟨[], rest, rfl, hnone⟩
    · have hlater : copy ∈ (tree.writeCopy first).1.copied rest := by
        rw [copied] at h
        split at h
        · rename_i hnone
          exact (List.mem_cons.mp h).resolve_left fun heq => hfirst ⟨heq, hnone⟩
        · exact h
      obtain ⟨before, later, rfl, hnone⟩ := ih hlater
      exact ⟨first :: before, later, rfl, hnone⟩

theorem mem_of_mem_copied {tree : FileTree} {copies : List PlannedCopy} {copy : PlannedCopy}
    (h : copy ∈ tree.copied copies) : copy ∈ copies := by
  obtain ⟨before, later, rfl, -⟩ := exists_of_mem_copied h
  exact List.mem_append_right before List.mem_cons_self

/-- Which copies are written, and what they change, does not depend on hidden files, as long as
copies of hidden files are hidden. -/
theorem SameBut.copyFiles {hidden : Location → Prop} {tree other : FileTree}
    (h : SameBut hidden tree other) {copies : List PlannedCopy}
    (hcopies : ∀ copy ∈ copies,
      hidden (other.placeOf copy.source) → hidden (other.placeOf copy.target)) :
    tree.copied copies = other.copied copies ∧
      SameBut hidden (tree.copyFiles copies) (other.copyFiles copies) := by
  induction copies generalizing tree other with
  | nil => exact ⟨rfl, h⟩
  | cons copy rest ih =>
    obtain ⟨hfault, hwritten⟩ := h.writeCopy (hcopies copy List.mem_cons_self)
    have hplaces := placeOf_congr (content?_writeCopy other copy).2
    obtain ⟨hcopied, hfiles⟩ := ih hwritten fun other' hother => by
      rw [hplaces, hplaces]
      exact hcopies other' (List.mem_cons_of_mem copy hother)
    refine ⟨?_, hfiles⟩
    rw [copied, copied, hfault, hcopied]

end FileTree

namespace Summary

/-- A summary with copies that were tried in a real run. -/
def withCopies (summary : Summary) (copied failed : Nat) : Summary :=
  { summary with
    tally := { summary.tally with
      renamed := summary.tally.renamed + (copied + failed)
      copied := summary.tally.copied + copied
      errors := summary.tally.errors + failed } }

theorem withCopies_copied (summary : Summary) (copied failed : Nat) :
    ((summary.count .renamed).count .copied).withCopies copied failed =
      summary.withCopies (copied + 1) failed := by
  simp only [withCopies, count, Tally.count]
  congr 2 <;> omega

theorem withCopies_failed (summary : Summary) (copied failed : Nat) :
    ((summary.count .renamed).count .error).withCopies copied failed =
      summary.withCopies copied (failed + 1) := by
  simp only [withCopies, count, Tally.count]
  congr 2 <;> omega

end Summary

namespace RunState

/-- The copies that succeed when all are tried one after the other: they are written and can be
given the times of their sources. -/
def copied (state : RunState) (copies : List PlannedCopy) : List PlannedCopy :=
  (state.files.copied copies).filter fun copy => state.KeepsTimes copy

/-- The copies that fail when all are tried one after the other: those that are not written, and
behind them those that are written but cannot be given the times of their sources. -/
def failed (state : RunState) (copies : List PlannedCopy) : List PlannedCopy :=
  state.files.failed copies ++
    (state.files.copied copies).filter fun copy => ¬ state.KeepsTimes copy

theorem length_copied_add_length_failed (state : RunState) (copies : List PlannedCopy) :
    (state.copied copies).length + (state.failed copies).length = copies.length := by
  have hwritten := List.length_eq_length_filter_add (l := state.files.copied copies)
    fun copy => decide (state.KeepsTimes copy)
  have htried := state.files.length_copied_add_length_failed copies
  simp only [copied, failed, List.length_append, decide_not]
  omega

theorem copied_cons (state : RunState) (copy : PlannedCopy) (rest : List PlannedCopy) :
    state.copied (copy :: rest) =
      if (state.files.writeCopy copy).2 = none ∧ state.KeepsTimes copy then
        copy :: (state.withFiles (state.files.writeCopy copy).1).copied rest
      else (state.withFiles (state.files.writeCopy copy).1).copied rest := by
  have hkeeps : (state.withFiles (state.files.writeCopy copy).1).KeepsTimes = state.KeepsTimes :=
    keepsTimes_congr rfl (FileTree.content?_writeCopy state.files copy).2
  simp only [copied, hkeeps, files_withFiles, FileTree.copied]
  by_cases hwritten : (state.files.writeCopy copy).2 = none
  · rw [if_pos hwritten, List.filter_cons]
    simp only [hwritten, true_and, decide_eq_true_eq]
  · rw [if_neg hwritten, if_neg fun h => hwritten h.1]

/-- The first of several copies is counted with those that succeed or with those that fail. -/
theorem length_copied_cons (state : RunState) (copy : PlannedCopy) (rest : List PlannedCopy) :
    ((state.files.writeCopy copy).2 = none ∧ state.KeepsTimes copy →
      (state.copied (copy :: rest)).length =
          ((state.withFiles (state.files.writeCopy copy).1).copied rest).length + 1 ∧
        (state.failed (copy :: rest)).length =
          ((state.withFiles (state.files.writeCopy copy).1).failed rest).length) ∧
    (¬ ((state.files.writeCopy copy).2 = none ∧ state.KeepsTimes copy) →
      (state.copied (copy :: rest)).length =
          ((state.withFiles (state.files.writeCopy copy).1).copied rest).length ∧
        (state.failed (copy :: rest)).length =
          ((state.withFiles (state.files.writeCopy copy).1).failed rest).length + 1) := by
  have hall := state.length_copied_add_length_failed (copy :: rest)
  have hrest :=
    (state.withFiles (state.files.writeCopy copy).1).length_copied_add_length_failed rest
  rw [copied_cons, List.length_cons] at *
  constructor
  · intro h
    rw [if_pos h, List.length_cons] at *
    omega
  · intro h
    rw [if_neg h] at *
    omega

theorem copied_congr {state other : RunState} (hfiles : other.files = state.files)
    (hfaults : other.timeFaults = state.timeFaults) :
    other.copied = state.copied ∧ other.failed = state.failed := by
  have hkeeps := keepsTimes_congr hfaults (congrArg FileTree.here hfiles)
  constructor
  · funext copies
    simp only [copied, hfiles, hkeeps]
  · funext copies
    simp only [failed, hfiles, hkeeps]

/-- A copy of a run changes the files as a copy on a tree does, but for hidden files. The log file
is one of them. It succeeds if it does so on the tree and can be given the times of its source. -/
theorem run_writeCopy {hidden : Location → Prop} (copy : PlannedCopy) (state : RunState)
    (hlog : ∀ place, state.LogsTo place → hidden place)
    (hcopy : hidden (state.files.placeOf copy.source) → hidden (state.files.placeOf copy.target)) :
    ∃ outcome after, (writeCopy copy : StateM RunState (Except Failure Unit)) state =
        (outcome, after) ∧
      after.logging = state.logging ∧ after.timeFaults = state.timeFaults ∧
      FileTree.SameBut hidden after.files (state.files.writeCopy copy).1 ∧
      (outcome = .ok () ↔ (state.files.writeCopy copy).2 = none ∧ state.KeepsTimes copy) := by
  obtain ⟨outcome, after, hrun, hstep⟩ := copyStep_writeCopy copy state
  refine ⟨outcome, after, hrun, ?_⟩
  -- the report before the file is written goes to the log file only
  have hwritten : ∀ made mid, state.files.makeParent copy.target = (made, none) →
      (state.withFiles made).OnlyReports mid →
      (mid.files.copyFile copy.source copy.target).2 = (state.files.writeCopy copy).2 ∧
        FileTree.SameBut hidden (mid.files.copyFile copy.source copy.target).1
          (state.files.writeCopy copy).1 := by
    intro made mid hmade hreport
    have hsame : FileTree.SameBut hidden mid.files made := hreport.sameBut.mono hlog
    have hhere := FileTree.here_of_makeParent hmade
    rw [← FileTree.placeOf_congr hhere, ← FileTree.placeOf_congr hhere] at hcopy
    rw [FileTree.writeCopy, hmade]
    exact hsame.copyFile hcopy
  cases hstep with
  | noDirectory hmade =>
    rw [FileTree.writeCopy, hmade]
    exact ⟨rfl, rfl, FileTree.SameBut.refl _ _, iff_of_false (by simp) (by simp)⟩
  | notWritten hmade hreport hcopied =>
    obtain ⟨hfault, hfiles⟩ := hwritten _ _ hmade hreport
    rw [hcopied] at hfault hfiles
    refine ⟨hreport.logging_eq, hreport.timeFaults_eq, hfiles, iff_of_false (by simp) ?_⟩
    rw [← hfault]
    simp
  | timesRefused hmade hreport hcopied htimes hconcerns =>
    obtain ⟨-, hfiles⟩ := hwritten _ _ hmade hreport
    rw [hcopied] at hfiles
    exact ⟨hreport.logging_eq, hreport.timeFaults_eq, hfiles,
      iff_of_false (by simp) fun h => htimes h.2⟩
  | written hmade hreport hcopied htimes =>
    obtain ⟨hfault, hfiles⟩ := hwritten _ _ hmade hreport
    rw [hcopied] at hfault hfiles
    exact ⟨hreport.logging_eq, hreport.timeFaults_eq, hfiles,
      iff_of_true rfl ⟨hfault.symm, htimes⟩⟩

theorem dryRun_afterCopy (summary : Summary) (copy : PlannedCopy)
    (outcome : Except Failure Unit) :
    (summary.afterCopy copy outcome).dryRun = summary.dryRun := by
  cases outcome with
  | error failure => rfl
  | ok done =>
    rw [Summary.afterCopy]
    split <;> rfl

/-- A copy with its reports: the summary tells how it went. -/
theorem copyOne_apply (task : Task) (summary : Summary) (file : RenamedFile) (state : RunState)
    {outcome : Except Failure Unit} {mid : RunState}
    (h : (copyRenamed (task.copyOf file) summary.dryRun : StateM RunState (Except Failure Unit))
      (state.report (.fileRenamed file.source file.target)) = (outcome, mid)) :
    ∃ after, (copyOne task summary file : StateM RunState Summary) state =
        ((summary.count .renamed).afterCopy (task.copyOf file) outcome, after) ∧
      mid.OnlyReports after := by
  rw [copyOne]
  simp only [bind, StateT.bind, report_apply, h]
  cases outcome with
  | ok done => exact ⟨mid, rfl, OnlyReports.refl mid⟩
  | error failure =>
    exact ⟨_, rfl, OnlyReports.report mid (.copyFailed (task.copyOf file).source failure)⟩

theorem copyOne_of_writeCopy (task : Task) {summary : Summary} (file : RenamedFile)
    (state : RunState) (hdry : summary.dryRun = false) {outcome : Except Failure Unit}
    {mid : RunState}
    (h : (writeCopy (task.copyOf file) : StateM RunState (Except Failure Unit))
      (state.report (.fileRenamed file.source file.target)) = (outcome, mid)) :
    ∃ after, (copyOne task summary file : StateM RunState Summary) state =
        ((summary.count .renamed).afterCopy (task.copyOf file) outcome, after) ∧
      mid.OnlyReports after := by
  refine copyOne_apply task summary file state ?_
  rw [copyRenamed, hdry, if_neg Bool.false_ne_true]
  exact h

theorem run_copyOne {hidden : Location → Prop} (task : Task) (file : RenamedFile)
    {summary : Summary} {state : RunState} (hlog : ∀ place, state.LogsTo place → hidden place)
    (hdry : summary.dryRun = false)
    (hcopy : hidden (state.files.placeOf (task.copyOf file).source) →
      hidden (state.files.placeOf (task.copyOf file).target)) :
    ∃ outcome after, (copyOne task summary file : StateM RunState Summary) state =
        ((summary.count .renamed).afterCopy (task.copyOf file) outcome, after) ∧
      after.logging = state.logging ∧ after.timeFaults = state.timeFaults ∧
      FileTree.SameBut hidden after.files (state.files.writeCopy (task.copyOf file)).1 ∧
      (outcome = .ok () ↔ (state.files.writeCopy (task.copyOf file)).2 = none ∧
        state.KeepsTimes (task.copyOf file)) := by
  have hreport := OnlyReports.report state (.fileRenamed file.source file.target)
  have hsame := hreport.sameBut.mono hlog
  obtain ⟨hfault, hwritten⟩ := hsame.writeCopy hcopy
  obtain ⟨outcome, mid, hrun, hlogging, hfaults, hfiles, hok⟩ :=
    run_writeCopy (task.copyOf file) (state.report (.fileRenamed file.source file.target))
      (hreport.logsTo_eq ▸ hlog) (by rwa [hsame.placeOf_eq, hsame.placeOf_eq])
  obtain ⟨after, heq, hafter⟩ := copyOne_of_writeCopy task file state hdry hrun
  have hmid : mid.LogsTo = state.LogsTo := logsTo_congr (hlogging.trans hreport.logging_eq)
  rw [hfault, keepsTimes_congr hreport.timeFaults_eq hsame.here_eq] at hok
  refine ⟨outcome, after, heq, ?_, ?_, ?_, hok⟩
  · rw [hafter.logging_eq, hlogging, hreport.logging_eq]
  · rw [hafter.timeFaults_eq, hfaults, hreport.timeFaults_eq]
  · exact ((hafter.sameBut.mono (hmid ▸ hlog)).trans hfiles).trans hwritten

theorem copyAll_cons {task : Task} {summary next : Summary} {file : RenamedFile}
    {state after : RunState}
    (h : (copyOne task summary file : StateM RunState Summary) state = (next, after))
    (rest : List RenamedFile) :
    copyAll (m := StateM RunState) task summary (file :: rest) state =
      copyAll (m := StateM RunState) task next rest after := by
  rw [copyAll]
  simp only [bind, StateT.bind, h]

/-- The copies of a run change the files as copies on a tree do, but for hidden files, and those
that succeed and those that fail are counted. The log file is a hidden one. -/
theorem run_copyAll {hidden : Location → Prop} (task : Task) (files : List RenamedFile)
    {summary : Summary} {state : RunState} {tree : FileTree}
    (hlog : ∀ place, state.LogsTo place → hidden place)
    (h : FileTree.SameBut hidden state.files tree) (hdry : summary.dryRun = false)
    (hcopies : ∀ file ∈ files, hidden (tree.placeOf (task.copyOf file).source) →
      hidden (tree.placeOf (task.copyOf file).target)) :
    (copyAll (m := StateM RunState) task summary files state).2.logging = state.logging ∧
      (copyAll (m := StateM RunState) task summary files state).2.timeFaults =
        state.timeFaults ∧
      FileTree.SameBut hidden (copyAll (m := StateM RunState) task summary files state).2.files
        (tree.copyFiles (files.map task.copyOf)) ∧
      (copyAll (m := StateM RunState) task summary files state).1 =
        summary.withCopies ((state.withFiles tree).copied (files.map task.copyOf)).length
          ((state.withFiles tree).failed (files.map task.copyOf)).length := by
  induction files generalizing summary state tree with
  | nil => exact ⟨rfl, rfl, h, rfl⟩
  | cons file rest ih =>
    have hcopy := hcopies file List.mem_cons_self
    obtain ⟨outcome, after, hrun, hlogging, hfaults, hfiles, hok⟩ := run_copyOne task file hlog hdry
      (by rwa [h.placeOf_eq, h.placeOf_eq])
    obtain ⟨hfault, hwritten⟩ := h.writeCopy hcopy
    have hlogs : after.LogsTo = state.LogsTo := logsTo_congr hlogging
    have hhere := (FileTree.content?_writeCopy tree (task.copyOf file)).2
    have hnext : ((summary.count .renamed).afterCopy (task.copyOf file) outcome).dryRun = false :=
      (dryRun_afterCopy _ _ _).trans hdry
    rw [copyAll_cons hrun]
    -- the log file and the places of paths are the same after the first copy
    obtain ⟨hlater, hsetting, hsame, hcount⟩ := ih (hlogs ▸ hlog) (hfiles.trans hwritten) hnext
      fun other hother => by
        rw [FileTree.placeOf_congr hhere, FileTree.placeOf_congr hhere]
        exact hcopies other (List.mem_cons_of_mem file hother)
    refine ⟨hlater.trans hlogging, hsetting.trans hfaults, hsame, ?_⟩
    have hkeeps : (state.withFiles tree).KeepsTimes = state.KeepsTimes :=
      keepsTimes_congr rfl h.here_eq.symm
    rw [hfault, ← hkeeps] at hok
    have hrest := @copied_congr ((state.withFiles tree).withFiles (tree.writeCopy _).1)
      (after.withFiles (tree.writeCopy (task.copyOf file)).1) rfl hfaults
    have hlengths := (state.withFiles tree).length_copied_cons (task.copyOf file)
      (rest.map task.copyOf)
    rw [files_withFiles, ← hrest.1, ← hrest.2] at hlengths
    rw [hcount, List.map_cons]
    cases outcome with
    | ok done =>
      obtain ⟨hcopied, hfailed⟩ := hlengths.1 (hok.mp rfl)
      rw [hcopied, hfailed, Summary.afterCopy]
      change Summary.withCopies (if summary.dryRun = true then _ else _) _ _ = _
      rw [hdry, if_neg Bool.false_ne_true, Summary.withCopies_copied]
    | error failure =>
      obtain ⟨hcopied, hfailed⟩ := hlengths.2 (mt hok.mpr (by simp))
      rw [hcopied, hfailed]
      exact Summary.withCopies_failed _ _ _

/-- A run that succeeds has a plan and leaves what the copies of the plan leave, but for hidden
files, as long as copies of hidden files are hidden. The log file is a hidden one. -/
theorem exists_plan_of_process_hiding {hidden : Location → Prop} {state after : RunState}
    {settings : Settings} {summary : Summary} (hlog : ∀ place, state.LogsTo place → hidden place)
    (h : state.perform (process settings false) = (.ok summary, after)) :
    ∃ plan, state.files.plan settings = .ok plan ∧
      ((∀ copy ∈ plan.copies, hidden (state.files.placeOf copy.source) →
          hidden (state.files.placeOf copy.target)) →
        after.logging = state.logging ∧ after.timeFaults = state.timeFaults ∧
        summary = (plan.summary false).withCopies (state.copied plan.copies).length
          (state.failed plan.copies).length ∧
        FileTree.SameBut hidden after.files (state.files.copyFiles plan.copies)) := by
  obtain ⟨mid, hmid, hprocess⟩ := perform_process state settings false
  rw [h] at hprocess
  cases hplan : state.files.plan settings with
  | error failure => simp [hplan] at hprocess
  | ok plan =>
    rw [hplan] at hprocess
    obtain ⟨last, heq, hlast⟩ := hprocess
    obtain ⟨hsummary, rfl⟩ := Prod.mk.inj heq
    refine ⟨plan, rfl, fun hcopies => ?_⟩
    rw [Plan.copies, List.forall_mem_map] at hcopies
    obtain ⟨hlogging, hfaults, hfiles, hcount⟩ := run_copyAll plan.task plan.report.renamed
      (hmid.logsTo_eq ▸ hlog) (hmid.sameBut.mono hlog) (plan.dryRun_summary false) hcopies
    have hlogs := logsTo_congr (hlogging.trans hmid.logging_eq)
    obtain ⟨hcopied, hfailed⟩ := @copied_congr state (mid.withFiles state.files) rfl
      hmid.timeFaults_eq
    rw [hcopied, hfailed] at hcount
    refine ⟨?_, ?_, (Except.ok.inj hsummary).trans hcount, ?_⟩
    · rw [hlast.logging_eq, hlogging, hmid.logging_eq]
    · rw [hlast.timeFaults_eq, hfaults, hmid.timeFaults_eq]
    · exact (hlast.sameBut.mono (hlogs ▸ hlog)).trans hfiles

/-- How many copies of a run succeed, and which entries there are after it, does not depend on what
the files hold. -/
theorem exists_summary_of_process {state after : RunState} {settings : Settings}
    {summary : Summary} (h : state.perform (process settings false) = (.ok summary, after)) :
    ∃ plan, state.files.plan settings = .ok plan ∧ after.logging = state.logging ∧
      after.timeFaults = state.timeFaults ∧
      summary = (plan.summary false).withCopies (state.copied plan.copies).length
        (state.failed plan.copies).length ∧
      FileTree.SameBut (fun _ => True) after.files (state.files.copyFiles plan.copies) := by
  obtain ⟨plan, hplan, hcopies⟩ :=
    @exists_plan_of_process_hiding (fun _ => True) _ _ _ _ (fun _ _ => trivial) h
  exact ⟨plan, hplan, hcopies fun _ _ _ => trivial⟩

/-- A run that succeeds has a plan and leaves what the copies of the plan leave, but for the log
file, which must not be copied. -/
theorem exists_plan_of_process {state after : RunState} {settings : Settings} {summary : Summary}
    (h : state.perform (process settings false) = (.ok summary, after)) :
    ∃ plan, state.files.plan settings = .ok plan ∧
      ((∀ copy ∈ plan.copies, ¬ state.LogsTo (state.files.placeOf copy.source)) →
        summary.tally.copied = (state.copied plan.copies).length ∧
          FileTree.SameBut state.LogsTo after.files (state.files.copyFiles plan.copies)) := by
  obtain ⟨plan, hplan, hcopies⟩ := exists_plan_of_process_hiding (fun _ => id) h
  refine ⟨plan, hplan, fun hlog => ?_⟩
  obtain ⟨-, -, rfl, hfiles⟩ := hcopies fun copy hcopy hsource => absurd hsource (hlog copy hcopy)
  refine ⟨?_, hfiles⟩
  rw [Plan.summary_eq]
  exact Nat.zero_add _

/-- A run leaves what the copies of its plan leave, but for the log file, which must not be
copied. -/
theorem sameBut_of_process {state after : RunState} {settings : Settings} {summary : Summary}
    {plan : Plan} (h : state.perform (process settings false) = (.ok summary, after))
    (hplan : state.files.plan settings = .ok plan)
    (hlog : ∀ copy ∈ plan.copies, ¬ state.LogsTo (state.files.placeOf copy.source)) :
    FileTree.SameBut state.LogsTo after.files (state.files.copyFiles plan.copies) := by
  obtain ⟨plan', hplan', hcopies⟩ := exists_plan_of_process h
  obtain rfl := Except.ok.inj (hplan.symm.trans hplan')
  exact (hcopies hlog).2

end RunState

end PatternRename
