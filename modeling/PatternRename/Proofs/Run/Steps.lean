import PatternRename.Proofs.Files.Contents
import PatternRename.Proofs.Outcomes
import PatternRename.Run.Process
import PatternRename.Run.State

/-!
# The steps of a run

Until the first copy a run only reports, and reports change nothing but the log file. So what a run
does is decided by the files that it finds: it fails with the first failure of its plan, or it has a
plan and writes the copies.

## Main definitions

- `RunState.LogsTo`, `RunState.logFile?` — the log file
- `RunState.OnlyReports` — states between which only the log file may differ
- `RunState.Reported` — states between which there are only reports
- `FileTree.listing` — the files that a listing of a directory finds
- `Plan`, `FileTree.plan` — what a run decides before the first copy

## Main results

- `RunState.reported_process`, `RunState.perform_process` — a run in terms of its plan
- `FileTree.plan_eq_ok_iff` — the steps of a plan
-/

namespace PatternRename

namespace FileTree

/-! ### Listings -/

/-- The entry of a location that a row tells of, if it tells of one. -/
def childOf? (place : Location) (row : Location × Entry) : Option (Name × EntryKind) :=
  row.1.getLast?.bind fun name =>
    if row.1.dropLast = place then some (name, row.2.kind) else none

theorem children_eq_filterMap (tree : FileTree) (place : Location) :
    tree.children place = tree.rows.filterMap (childOf? place) := by
  rw [children]
  congr 1
  funext row
  obtain ⟨spot, entry⟩ := row
  rw [childOf?]
  cases hlast : spot.getLast? <;> simp [hlast]

theorem map_kind_putRow {place : Location} {entry old : Entry} {rows : List (Location × Entry)}
    (h : rows.lookup place = some old) (hkind : old.kind = entry.kind) :
    (putRow place entry rows).map (fun row => (row.1, row.2.kind)) =
      rows.map fun row => (row.1, row.2.kind) := by
  induction rows with
  | nil => simp at h
  | cons row rest ih =>
    obtain ⟨spot, first⟩ := row
    by_cases hspot : spot = place
    · have hfirst : first = old := by simpa [List.lookup_cons, hspot] using h
      rw [putRow, if_pos hspot, List.map_cons, List.map_cons, ← hkind, ← hfirst, hspot]
    · have hne : (place == spot) = false := by simpa using Ne.symm hspot
      rw [List.lookup_cons, hne] at h
      rw [putRow, if_neg hspot, List.map_cons, List.map_cons, ih h]

/-- A directory has the same entries after one of them is set to an entry of its kind. -/
theorem children_put_of_kind {tree : FileTree} {place : Location} {entry old : Entry}
    (hne : place ≠ []) (hold : tree.get? place = some old) (hkind : old.kind = entry.kind) :
    (tree.put place entry).children = tree.children := by
  rw [get?, if_neg hne] at hold
  have hrows := map_kind_putRow hold hkind
  funext spot
  have hchildren : ∀ other : FileTree, other.children spot =
      (other.rows.map fun row => (row.1, row.2.kind)).filterMap fun row =>
        row.1.getLast?.bind fun name =>
          if row.1.dropLast = spot then some (name, row.2) else none := by
    intro other
    rw [children_eq_filterMap, List.filterMap_map]
    rfl
  rw [hchildren, hchildren]
  exact congrArg _ hrows

theorem putRow_of_lookup_eq_none {place : Location} {rows : List (Location × Entry)}
    (h : rows.lookup place = none) (entry : Entry) :
    putRow place entry rows = rows ++ [(place, entry)] := by
  induction rows with
  | nil => rfl
  | cons row rest ih =>
    obtain ⟨spot, old⟩ := row
    have hne : spot ≠ place := by
      rintro rfl
      simp at h
    have hbeq : (place == spot) = false := by simpa using Ne.symm hne
    rw [List.lookup_cons, hbeq] at h
    rw [putRow, if_neg hne, ih h, List.cons_append]

/-- A new entry comes behind the others of its directory. -/
theorem children_put_of_none {tree : FileTree} {place : Location} (h : tree.get? place = none)
    (entry : Entry) (spot : Location) :
    (tree.put place entry).children spot =
      tree.children spot ++ (childOf? spot (place, entry)).toList := by
  have hne : place ≠ [] := by
    rintro rfl
    simp [get?] at h
  rw [get?, if_neg hne] at h
  rw [children_eq_filterMap, children_eq_filterMap, put, putRow_of_lookup_eq_none h,
    List.filterMap_append, List.filterMap_cons]
  cases childOf? spot (place, entry) <;> rfl

/-- A directory has the same entries after a file has grown. -/
theorem children_appendAt (tree : FileTree) (place : Location) (more : List UInt8) :
    (tree.appendAt place more).children = tree.children := by
  rw [appendAt]
  split
  · rename_i content hcontent
    have hne : place ≠ [] := by
      rintro rfl
      simp [get?] at hcontent
    exact children_put_of_kind hne hcontent rfl
  · rfl

def listing (tree : FileTree) (directory : Path) : Except Failure Listing :=
  if tree.kind? directory ≠ some .directory then .error (.directoryNotFound directory)
  else match tree.list directory with
    | .error fault => .error (.directoryUnreadable directory fault)
    | .ok entries => .ok (Listing.ofEntries directory entries)

/-- Files that are found in the order of their names are listed as they are found. -/
theorem listing_of_sorted {tree : FileTree} {directory : Path} {entries : List (Name × EntryKind)}
    {files : List ListedFile} (hkind : tree.kind? directory = some .directory)
    (hlist : tree.list directory = .ok entries)
    (hfound : (Listing.candidates directory entries).map ListedFile.ofPath = files.map .ok)
    (hsorted : files.Pairwise fun a b => a.comesBefore b = true) :
    tree.listing directory = .ok ⟨files, []⟩ := by
  have hfiles : (files.map (Except.ok (ε := Failure))).filterMap Except.toOption = files := by
    rw [List.filterMap_map]
    exact List.filterMap_some
  have hnone : (files.map Except.ok).filterMap Listing.failure? = [] := by
    rw [List.filterMap_map, List.filterMap_eq_nil_iff]
    exact fun _ _ => rfl
  rw [listing, hkind, if_neg (by simp), hlist]
  simp only [Listing.ofEntries, hfound, hfiles, hnone, List.mergeSort_of_pairwise hsorted]

theorem SameBut.list_eq {hidden : Location → Prop} {tree other : FileTree}
    (h : SameBut hidden tree other) (hchildren : tree.children = other.children) (p : Path) :
    tree.list p = other.list p := by
  rw [list, list, h.locate_eq]
  cases other.locate p with
  | error fault => rfl
  | ok place =>
    have hkind := h.kind_eq place
    simp only [hchildren]
    cases ht : tree.get? place with
    | none => rw [(h.get?_eq_none_iff place).mp ht]
    | some entry =>
      cases ho : other.get? place with
      | none =>
        rw [(h.get?_eq_none_iff place).mpr ho] at ht
        simp at ht
      | some entry' =>
        rw [ht, ho, Option.map_some, Option.map_some, Option.some.injEq] at hkind
        cases entry <;> cases entry' <;> simp [Entry.kind] at hkind ⊢

theorem SameBut.listing_eq {hidden : Location → Prop} {tree other : FileTree}
    (h : SameBut hidden tree other) (hchildren : tree.children = other.children)
    (directory : Path) : tree.listing directory = other.listing directory := by
  rw [listing, listing, h.kind?_eq, h.list_eq hchildren]

end FileTree

namespace RunState

/-! ### Reports -/

def LogsTo (state : RunState) (place : Location) : Prop :=
  ∃ logging, state.logging = some logging ∧ logging.file = some place

theorem not_logsTo_of_logging_eq_none {state : RunState} (h : state.logging = none)
    (place : Location) : ¬ state.LogsTo place := by
  rintro ⟨logging, hlogging, -⟩
  rw [h] at hlogging
  simp at hlogging

theorem logsTo_congr {state after : RunState} (h : after.logging = state.logging) :
    after.LogsTo = state.LogsTo := by
  funext place
  rw [LogsTo, LogsTo, h]

/-- Only reports stand between two states: nothing but the log file has changed. -/
structure OnlyReports (state after : RunState) : Prop where
  logging_eq : after.logging = state.logging
  times_eq : after.times = state.times
  timeFaults_eq : after.timeFaults = state.timeFaults
  sameBut : FileTree.SameBut state.LogsTo after.files state.files
  children_eq : after.files.children = state.files.children

namespace OnlyReports

variable {state mid after : RunState}

theorem refl (state : RunState) : state.OnlyReports state :=
  ⟨rfl, rfl, rfl, FileTree.SameBut.refl _ _, rfl⟩

theorem logsTo_eq (h : state.OnlyReports after) : after.LogsTo = state.LogsTo :=
  logsTo_congr h.logging_eq

theorem trans (h : state.OnlyReports mid) (h' : mid.OnlyReports after) :
    state.OnlyReports after :=
  ⟨h'.logging_eq.trans h.logging_eq, h'.times_eq.trans h.times_eq,
    h'.timeFaults_eq.trans h.timeFaults_eq, (h.logsTo_eq ▸ h'.sameBut).trans h.sameBut,
    h'.children_eq.trans h.children_eq⟩

theorem report (state : RunState) (event : Event) : state.OnlyReports (state.report event) := by
  rw [RunState.report]
  split
  · exact refl state
  · rename_i logging hlogging
    split
    · simp only
      split
      · exact ⟨rfl, rfl, rfl, FileTree.SameBut.refl _ _, rfl⟩
      · rename_i place hplace
        refine ⟨rfl, rfl, rfl, ?_, FileTree.children_appendAt _ _ _⟩
        exact FileTree.sameBut_appendAt _ ⟨logging, hlogging, hplace⟩ _
    · exact refl state

theorem print (state : RunState) (text : String) : state.OnlyReports (state.print text) := by
  rw [RunState.print]
  split <;> exact ⟨rfl, rfl, rfl, FileTree.SameBut.refl _ _, rfl⟩

end OnlyReports

/-- The log file, if there is one. -/
def logFile? (state : RunState) : Option Location :=
  state.logging.bind Logging.file

theorem logsTo_iff {state : RunState} {place : Location} :
    state.LogsTo place ↔ state.logFile? = some place := by
  rw [LogsTo, logFile?, Option.bind_eq_some_iff]

/-- A state that reports and shown texts lead to. -/
inductive Reported (state : RunState) : RunState → Prop
  | refl : Reported state state
  | report {mid : RunState} (h : Reported state mid) (event : Event) :
    Reported state (mid.report event)
  | print {mid : RunState} (h : Reported state mid) (text : String) :
    Reported state (mid.print text)

namespace Reported

variable {state mid after : RunState}

theorem trans (h : state.Reported mid) (h' : mid.Reported after) : state.Reported after := by
  induction h' with
  | refl => exact h
  | report _ event ih => exact ih.report event
  | print _ text ih => exact ih.print text

theorem reports (state : RunState) (events : List Event) :
    state.Reported (events.foldl RunState.report state) :=
  List.foldlRecOn events RunState.report Reported.refl fun _ h event _ => h.report event

theorem reportAll (state : RunState) (events : List Event) :
    state.Reported (PatternRename.reportAll (m := StateM RunState) events state).2 := by
  rw [reportAll_run]
  exact reports state events

theorem onlyReports (h : state.Reported after) : state.OnlyReports after := by
  induction h with
  | refl => exact OnlyReports.refl state
  | report _ event ih => exact ih.trans (OnlyReports.report _ event)
  | print _ text ih => exact ih.trans (OnlyReports.print _ text)

/-- Reports add lines to the log file. Without a log file they leave the files as they are. -/
theorem exists_files_eq (h : state.Reported after) :
    (state.logFile? = none → after.files = state.files) ∧
      ∀ place, state.logFile? = some place → ∃ lines : List (List UInt8),
        after.files = lines.foldl (fun files line => files.appendAt place line) state.files := by
  induction h with
  | refl => exact ⟨fun _ => rfl, fun place _ => ⟨[], rfl⟩⟩
  | @print mid _ text ih =>
    have hfiles : (mid.print text).files = mid.files := by
      rw [RunState.print]
      split <;> rfl
    rw [hfiles]
    exact ih
  | @report mid hmid event ih =>
    have hlogging : mid.logging = state.logging := hmid.onlyReports.logging_eq
    refine ⟨fun hnone => ?_, fun place hplace => ?_⟩
    · rw [files_report event ?_, ih.1 hnone]
      intro logging hstarted
      rw [logFile?, ← hlogging, hstarted] at hnone
      exact hnone
    · obtain ⟨lines, hlines⟩ := ih.2 place hplace
      rw [logFile?, ← hlogging, Option.bind_eq_some_iff] at hplace
      obtain ⟨logging, hstarted, hfile⟩ := hplace
      rw [RunState.report, hstarted]
      dsimp only
      split
      · refine ⟨lines ++ [Text.Utf8.octets (event.fileLine mid.time)], ?_⟩
        rw [hfile, List.foldl_append, ← hlines]
        rfl
      · exact ⟨lines, hlines⟩

end Reported

/-! ### Steps one after the other -/

section Perform

variable {α β : Type} {state after : RunState}

/-- A step that fails is the last one. -/
theorem perform_bind (action : ExceptT Failure (StateM RunState) α)
    (next : α → ExceptT Failure (StateM RunState) β) :
    state.perform (action >>= next) =
      match state.perform action with
      | (.ok a, mid) => mid.perform (next a)
      | (.error failure, mid) => (.error failure, mid) := by
  change ExceptT.bindCont next (state.perform action).1 (state.perform action).2 = _
  generalize state.perform action = done
  obtain ⟨outcome, mid⟩ := done
  cases outcome <;> rfl

theorem perform_lift_bind (action : StateM RunState α)
    (next : α → ExceptT Failure (StateM RunState) β) :
    state.perform ((liftM action : ExceptT Failure (StateM RunState) α) >>= next) =
      (action state).2.perform (next (action state).1) := rfl

theorem perform_liftExcept (outcome : Except Failure α) :
    state.perform (liftM outcome) = (outcome, state) := by
  cases outcome <;> rfl

theorem report_apply (event : Event) :
    (Host.report event : StateM RunState Unit) state = ((), state.report event) := rfl

theorem look_apply (p : Path) :
    (Host.look p : StateM RunState (Option EntryKind)) state = (state.files.kind? p, state) := rfl

theorem list_apply (p : Path) :
    (Host.list p : StateM RunState (Except Fault (List (Name × EntryKind)))) state =
      (state.files.list p, state) := rfl

end Perform

/-! ### The steps before the copies -/

/-- A listing depends on the files before it only, and it changes none of them. -/
theorem perform_listDirectory (state : RunState) (directory : Path) :
    ∃ after, state.perform (listDirectory directory) = (state.files.listing directory, after) ∧
      state.Reported after := by
  have hfirst : state.Reported (state.report (.listing directory)) := Reported.refl.report _
  have hsame := hfirst.onlyReports
  have hkind : (state.report (.listing directory)).files.kind? directory =
      state.files.kind? directory := hsame.sameBut.kind?_eq directory
  have hlist : (state.report (.listing directory)).files.list directory =
      state.files.list directory := hsame.sameBut.list_eq hsame.children_eq directory
  -- the first report does not change what is found
  rw [FileTree.listing, ← hkind, ← hlist]
  generalize hmid : state.report (.listing directory) = mid at hfirst
  unfold listDirectory
  rw [perform_lift_bind, report_apply, perform_lift_bind, look_apply]
  dsimp only
  rw [hmid]
  split
  · exact ⟨mid, rfl, hfirst⟩
  · rw [perform_lift_bind, list_apply]
    dsimp only
    cases mid.files.list directory with
    | error fault => exact ⟨mid, rfl, hfirst⟩
    | ok entries => exact ⟨_, rfl, hfirst.trans (Reported.reportAll _ _)⟩

theorem outcome_listDirectory (state : RunState) (directory : Path) :
    (state.perform (listDirectory directory)).1 = state.files.listing directory := by
  obtain ⟨after, hlist, -⟩ := perform_listDirectory state directory
  rw [hlist]

end RunState

theorem Settings.require_eq_ok_iff {α : Type} {option : RequiredOption} {given : Option α}
    {value : α} : require option given = .ok value ↔ given = some value := by
  cases given <;> simp [require]

/-- A task has the options of its settings, and a renamer for the patterns among them. -/
theorem Settings.task_eq_ok_iff {settings : Settings} {task : Task} :
    settings.task = .ok task ↔ settings.inputDirectory = some task.inputDirectory ∧
      settings.outputDirectory = some task.outputDirectory ∧
      settings.inputPattern = some task.inputPattern ∧
      settings.outputPattern = some task.outputPattern ∧
      Renamer.ofTexts task.inputPattern task.outputPattern = .ok task.renamer := by
  rw [Settings.task]
  constructor
  · intro h
    obtain ⟨input, hinput, h⟩ := bind_eq_ok_iff.mp h
    obtain ⟨output, houtput, h⟩ := bind_eq_ok_iff.mp h
    obtain ⟨inputPattern, hfrom, h⟩ := bind_eq_ok_iff.mp h
    obtain ⟨outputPattern, hto, h⟩ := bind_eq_ok_iff.mp h
    obtain ⟨renamer, hrenamer, h⟩ := bind_eq_ok_iff.mp h
    obtain rfl := Except.ok.inj h
    rw [require_eq_ok_iff] at hinput houtput hfrom hto
    exact ⟨hinput, houtput, hfrom, hto, mapError_eq_ok_iff.mp hrenamer⟩
  · rintro ⟨hinput, houtput, hfrom, hto, hrenamer⟩
    rw [hinput, houtput, hfrom, hto]
    simp only [require, ok_bind, mapError_eq_ok_iff.mpr hrenamer]
    rfl

/-- The task that settings ask for, if the directories of the tree suit it. -/
def FileTree.taskFor (tree : FileTree) (settings : Settings) : Except Failure Task := do
  let task ← settings.task
  task.checkPlaces (tree.kind? task.inputDirectory) (tree.kind? task.outputDirectory)
  return task

/-- What a run decides before the first copy. -/
structure Plan where
  task : Task
  listing : Listing
  report : Report

/-- What a run decides, from the files that it finds. -/
def FileTree.plan (tree : FileTree) (settings : Settings) : Except Failure Plan := do
  let task ← tree.taskFor settings
  let listing ← tree.listing task.inputDirectory
  let report ← task.renamer.rename listing.names
  return ⟨task, listing, report⟩

def Failure.isNoMatch : Failure → Bool
  | .noMatch .. => true
  | _ => false

namespace Summary

theorem foldl_skip (others : List LeftOut) (summary : Summary) :
    others.foldl (fun summary file => summary.skip file.filename file.failure.isNoMatch) summary =
      { summary with
        tally := { summary.tally with
          unmatched := summary.tally.unmatched + others.countP (·.failure.isNoMatch)
          errors := summary.tally.errors + others.countP (!·.failure.isNoMatch) }
        skipped := summary.skipped ++ others.map LeftOut.filename } := by
  induction others generalizing summary with
  | nil => simp
  | cons file rest ih =>
    rw [List.foldl_cons, ih, List.countP_cons, List.countP_cons, List.map_cons]
    cases hfailure : file.failure.isNoMatch <;>
      simp [skip, Tally.count, Nat.add_assoc, Nat.add_comm 1]

theorem foldl_count_collision {α : Type} (found : List α) (summary : Summary) :
    found.foldl (fun summary _ => summary.count .collision) summary =
      { summary with
        tally := { summary.tally with collisions := summary.tally.collisions + found.length } } := by
  induction found generalizing summary with
  | nil => rfl
  | cons first rest ih =>
    rw [List.foldl_cons, ih, List.length_cons]
    simp [count, Tally.count, Nat.add_assoc, Nat.add_comm 1]

/-- A report adds the names that are left out, each with its count, and the collisions. -/
theorem ofReport_eq (summary : Summary) (report : Report) :
    summary.ofReport report =
      { summary with
        tally := { summary.tally with
          unmatched := summary.tally.unmatched + report.leftOut.countP (·.failure.isNoMatch)
          errors := summary.tally.errors + report.leftOut.countP (!·.failure.isNoMatch)
          collisions := summary.tally.collisions + (collisions report.renamed).length }
        skipped := summary.skipped ++ report.leftOut.map LeftOut.filename } := by
  change (collisions report.renamed).foldl (fun summary _ => summary.count .collision)
    (report.leftOut.foldl (fun summary file => summary.skip file.filename file.failure.isNoMatch)
      summary) = _
  rw [foldl_skip, foldl_count_collision]

end Summary

namespace Plan

def copies (plan : Plan) : List PlannedCopy :=
  plan.report.renamed.map plan.task.copyOf

/-- The summary of a run before the first copy. -/
def summary (plan : Plan) (dryRun : Bool) : Summary :=
  (({ dryRun } : Summary).found plan.listing.files.length).ofReport plan.report

/-- Before the first copy, what a run found and left out is counted, and the collisions are. -/
theorem summary_eq (plan : Plan) (dryRun : Bool) :
    plan.summary dryRun =
      { dryRun
        tally := {
          scanned := plan.listing.files.length
          unmatched := plan.report.leftOut.countP (·.failure.isNoMatch)
          errors := plan.report.leftOut.countP (!·.failure.isNoMatch)
          collisions := (collisions plan.report.renamed).length }
        skipped := plan.report.leftOut.map LeftOut.filename } := by
  rw [summary, Summary.ofReport_eq]
  simp [Summary.found]

theorem dryRun_summary (plan : Plan) (dryRun : Bool) :
    (plan.summary dryRun).dryRun = dryRun := by
  rw [summary_eq]

/-- Nothing is planned yet. -/
theorem planned_summary (plan : Plan) (dryRun : Bool) :
    (plan.summary dryRun).planned = [] := by
  rw [summary_eq]

end Plan

theorem FileTree.plan_eq_ok_iff {tree : FileTree} {settings : Settings} {plan : Plan} :
    tree.plan settings = .ok plan ↔
      tree.taskFor settings = .ok plan.task ∧
      tree.listing plan.task.inputDirectory = .ok plan.listing ∧
      plan.task.renamer.rename plan.listing.names = .ok plan.report := by
  obtain ⟨task, listing, report⟩ := plan
  rw [FileTree.plan, bind_eq_ok_iff]
  constructor
  · rintro ⟨found, htask, h⟩
    obtain ⟨files, hlisting, h⟩ := bind_eq_ok_iff.mp h
    obtain ⟨names, hreport, h⟩ := bind_eq_ok_iff.mp h
    obtain ⟨rfl, rfl, rfl⟩ := Plan.mk.inj (Except.ok.inj h)
    exact ⟨htask, hlisting, hreport⟩
  · rintro ⟨htask, hlisting, hreport⟩
    refine ⟨task, htask, bind_eq_ok_iff.mpr ⟨listing, hlisting, ?_⟩⟩
    exact bind_eq_ok_iff.mpr ⟨report, hreport, rfl⟩

theorem Task.checkPlaces_eq_ok_iff {task : Task} {input output : Option EntryKind} :
    task.checkPlaces input output = .ok () ↔
      input = some .directory ∧ output ≠ some .file := by
  cases input with
  | none => simp [checkPlaces]
  | some kind => cases kind <;> simp [checkPlaces]

theorem FileTree.taskFor_eq_ok_iff {tree : FileTree} {settings : Settings} {task : Task} :
    tree.taskFor settings = .ok task ↔ settings.task = .ok task ∧
      task.checkPlaces (tree.kind? task.inputDirectory) (tree.kind? task.outputDirectory) =
        .ok () := by
  rw [taskFor, bind_eq_ok_iff]
  constructor
  · rintro ⟨found, htask, h⟩
    obtain ⟨done, hplaces, h⟩ := bind_eq_ok_iff.mp h
    obtain rfl := Except.ok.inj h
    exact ⟨htask, hplaces⟩
  · rintro ⟨htask, hplaces⟩
    exact ⟨task, htask, bind_eq_ok_iff.mpr ⟨(), hplaces, rfl⟩⟩

namespace RunState

/-- A task depends on the settings and on what is at its directories, which are only looked at. -/
theorem perform_prepare (state : RunState) (settings : Settings) :
    ∃ after, state.perform (prepare settings) = (state.files.taskFor settings, after) ∧
      state.Reported after := by
  have hfirst := Reported.reportAll state settings.patternEvents
  unfold prepare
  rw [perform_lift_bind, FileTree.taskFor]
  generalize (reportAll (m := StateM RunState) settings.patternEvents state).2 = first at hfirst ⊢
  rw [perform_bind, perform_liftExcept]
  cases settings.task with
  | error failure => exact ⟨first, rfl, hfirst⟩
  | ok task =>
    dsimp only
    rw [perform_lift_bind, look_apply, perform_lift_bind, look_apply, perform_bind,
      perform_liftExcept, hfirst.onlyReports.sameBut.kind?_eq,
      hfirst.onlyReports.sameBut.kind?_eq, ok_bind]
    cases task.checkPlaces (state.files.kind? task.inputDirectory)
        (state.files.kind? task.outputDirectory) with
    | error failure => exact ⟨first, rfl, hfirst⟩
    | ok done => exact ⟨_, rfl, hfirst.report _⟩

theorem perform_renameAll (state : RunState) (renamer : Renamer) (names : List String) :
    ∃ after, state.perform (renameAll renamer names) = (renamer.rename names, after) ∧
      state.Reported after := by
  unfold renameAll
  rw [perform_lift_bind, perform_liftExcept]
  exact ⟨_, rfl, Reported.reportAll state _⟩

/-- A run is decided by the files that it finds. It fails before the first copy or writes all
copies, and before and after them it only reports. -/
theorem reported_process (state : RunState) (settings : Settings) (dryRun : Bool) :
    ∃ mid, state.Reported mid ∧
      match state.files.plan settings with
      | .error failure => state.perform (process settings dryRun) = (.error failure, mid)
      | .ok plan => ∃ after, state.perform (process settings dryRun) =
            (.ok (copyAll (m := StateM RunState) plan.task (plan.summary dryRun)
              plan.report.renamed mid).1, after) ∧
          (copyAll (m := StateM RunState) plan.task (plan.summary dryRun)
            plan.report.renamed mid).2.Reported after := by
  obtain ⟨prepared, hprepare, hprepared⟩ := perform_prepare state settings
  rw [FileTree.plan]
  unfold process
  rw [perform_bind, hprepare]
  cases state.files.taskFor settings with
  | error failure => exact ⟨prepared, hprepared, rfl⟩
  | ok task =>
    rw [ok_bind]
    obtain ⟨listed, hlist, hlisted⟩ := perform_listDirectory prepared task.inputDirectory
    have hsame := hprepared.onlyReports
    rw [hsame.sameBut.listing_eq hsame.children_eq] at hlist
    have hquiet := hprepared.trans hlisted
    dsimp only
    rw [perform_bind, hlist]
    cases state.files.listing task.inputDirectory with
    | error failure => exact ⟨listed, hquiet, rfl⟩
    | ok listing =>
      dsimp only
      rw [ok_bind]
      by_cases hempty : listing.files.isEmpty = true
      · -- nothing is listed, so nothing is renamed
        have hnames : listing.names = [] := by
          rw [Listing.names, List.isEmpty_iff.mp hempty]
          rfl
        rw [if_pos hempty, perform_lift_bind, report_apply, hnames]
        exact ⟨listed, hquiet, _, rfl, Reported.refl.report _⟩
      · rw [if_neg hempty, perform_lift_bind, report_apply, perform_bind]
        have hbegins := hquiet.report (.renamingBegins listing.files.length dryRun)
        obtain ⟨renamed, hrename, hrenamed⟩ := perform_renameAll
          (listed.report (.renamingBegins listing.files.length dryRun)) task.renamer listing.names
        rw [hrename]
        cases task.renamer.rename listing.names with
        | error failure => exact ⟨renamed, hbegins.trans hrenamed, rfl⟩
        | ok report =>
          dsimp only
          rw [perform_lift_bind, perform_lift_bind, perform_lift_bind, perform_lift_bind, ok_bind]
          exact ⟨_, (hbegins.trans hrenamed).trans (Reported.reportAll _ _), _, rfl,
            (Reported.refl.report _).print _⟩

/-- What a run changes before and after its copies is the log file only. -/
theorem perform_process (state : RunState) (settings : Settings) (dryRun : Bool) :
    ∃ mid, state.OnlyReports mid ∧
      match state.files.plan settings with
      | .error failure => state.perform (process settings dryRun) = (.error failure, mid)
      | .ok plan => ∃ after, state.perform (process settings dryRun) =
            (.ok (copyAll (m := StateM RunState) plan.task (plan.summary dryRun)
              plan.report.renamed mid).1, after) ∧
          (copyAll (m := StateM RunState) plan.task (plan.summary dryRun)
            plan.report.renamed mid).2.OnlyReports after := by
  obtain ⟨mid, hmid, hprocess⟩ := reported_process state settings dryRun
  refine ⟨mid, hmid.onlyReports, ?_⟩
  cases hplan : state.files.plan settings with
  | error failure =>
    rw [hplan] at hprocess
    exact hprocess
  | ok plan =>
    rw [hplan] at hprocess
    obtain ⟨after, hrun, hafter⟩ := hprocess
    exact ⟨after, hrun, hafter.onlyReports⟩

/-- A plan is made of the task, what is listed and the report on it. -/
theorem eq_of_plan {state : RunState} {settings : Settings} {plan : Plan} {task : Task}
    {listing : Listing} {report : Report} (h : state.files.plan settings = .ok plan)
    (htask : settings.task = .ok task)
    (hlisting : (state.perform (listDirectory task.inputDirectory)).1 = .ok listing)
    (hreport : task.renamer.rename listing.names = .ok report) :
    plan = ⟨task, listing, report⟩ := by
  obtain ⟨htask', hlisting', hreport'⟩ := FileTree.plan_eq_ok_iff.mp h
  obtain ⟨found, files, names⟩ := plan
  obtain rfl : found = task :=
    Except.ok.inj ((FileTree.taskFor_eq_ok_iff.mp htask').1.symm.trans htask)
  rw [outcome_listDirectory] at hlisting
  obtain rfl := Except.ok.inj (hlisting'.symm.trans hlisting)
  obtain rfl := Except.ok.inj (hreport'.symm.trans hreport)
  rfl

end RunState

end PatternRename
