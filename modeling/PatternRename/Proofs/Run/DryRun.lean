import PatternRename.Proofs.Run.Copies

/-!
# Dry runs

A dry run and a real run follow the same plan, and nothing that is decided after the first copy
depends on the files but the copies themselves. So a dry run fails as the real run does, it tells
the same about the names, and the copies that it plans lead to the files of the real run.

## Main definitions

- `Summary.SameNames` — summaries that tell the same about the names
- `Summary.withPlans` — a summary with copies that were planned
- `replay` — planned copies, written one after the other

## Main results

- `RunState.run_replay` — a replay changes the files as copies on a tree do
- `RunState.process_dryRun` — what a dry run tells about the real run
-/

namespace PatternRename

/-! ### What is told about the names -/

/-- Two summaries tell the same about the names that were found and made, and about the ones that
were left out. -/
structure Summary.SameNames (summary other : Summary) : Prop where
  scanned_eq : summary.tally.scanned = other.tally.scanned
  renamed_eq : summary.tally.renamed = other.tally.renamed
  unmatched_eq : summary.tally.unmatched = other.tally.unmatched
  collisions_eq : summary.tally.collisions = other.tally.collisions
  skipped_eq : summary.skipped = other.skipped

namespace Summary.SameNames

variable {summary other third : Summary}

theorem symm (h : summary.SameNames other) : other.SameNames summary :=
  ⟨h.scanned_eq.symm, h.renamed_eq.symm, h.unmatched_eq.symm, h.collisions_eq.symm,
    h.skipped_eq.symm⟩

theorem trans (h : summary.SameNames other) (h' : other.SameNames third) :
    summary.SameNames third :=
  ⟨h.scanned_eq.trans h'.scanned_eq, h.renamed_eq.trans h'.renamed_eq,
    h.unmatched_eq.trans h'.unmatched_eq, h.collisions_eq.trans h'.collisions_eq,
    h.skipped_eq.trans h'.skipped_eq⟩

theorem count (h : summary.SameNames other) (item : Tally.Item) :
    (summary.count item).SameNames (other.count item) := by
  obtain ⟨hscanned, hrenamed, hunmatched, hcollisions, hskipped⟩ := h
  cases item with
  | renamed => exact ⟨hscanned, congrArg (· + 1) hrenamed, hunmatched, hcollisions, hskipped⟩
  | collision => exact ⟨hscanned, hrenamed, hunmatched, congrArg (· + 1) hcollisions, hskipped⟩
  | copied | error => exact ⟨hscanned, hrenamed, hunmatched, hcollisions, hskipped⟩

theorem skip (h : summary.SameNames other) (filename : String) (unmatched : Bool) :
    (summary.skip filename unmatched).SameNames (other.skip filename unmatched) := by
  obtain ⟨hscanned, hrenamed, hunmatched, hcollisions, hskipped⟩ := h
  have hlist := congrArg (· ++ [filename]) hskipped
  cases unmatched with
  | true => exact ⟨hscanned, hrenamed, congrArg (· + 1) hunmatched, hcollisions, hlist⟩
  | false => exact ⟨hscanned, hrenamed, hunmatched, hcollisions, hlist⟩

theorem ofReport (h : summary.SameNames other) (report : Report) :
    (summary.ofReport report).SameNames (other.ofReport report) := by
  rw [Summary.ofReport, Summary.ofReport]
  apply List.foldl_rel
  · apply List.foldl_rel
    · exact h
    · exact fun file _ summary other hsame => hsame.skip file.filename _
  · exact fun _ _ summary other hsame => hsame.count .collision

/-- How a copy went tells nothing about the names. -/
theorem afterCopy (summary : Summary) (copy : PlannedCopy) (outcome : Except Failure Unit) :
    (summary.afterCopy copy outcome).SameNames summary := by
  cases outcome with
  | error failure => exact ⟨rfl, rfl, rfl, rfl, rfl⟩
  | ok done =>
    rw [Summary.afterCopy]
    split <;> exact ⟨rfl, rfl, rfl, rfl, rfl⟩

end Summary.SameNames

/-- A summary with copies that were planned in a dry run. -/
def Summary.withPlans (summary : Summary) (copies : List PlannedCopy) : Summary :=
  { summary with
    tally := { summary.tally with renamed := summary.tally.renamed + copies.length }
    planned := summary.planned ++ copies }

theorem Summary.withPlans_plan (summary : Summary) (copy : PlannedCopy)
    (copies : List PlannedCopy) :
    ((summary.count .renamed).plan copy).withPlans copies = summary.withPlans (copy :: copies) := by
  simp only [withPlans, count, plan, Tally.count, List.append_assoc, List.singleton_append,
    List.length_cons, Nat.add_assoc, Nat.add_comm 1]

theorem Plan.sameNames_summary (plan : Plan) (dryRun other : Bool) :
    (plan.summary dryRun).SameNames (plan.summary other) := by
  rw [summary, summary]
  apply Summary.SameNames.ofReport
  exact ⟨rfl, rfl, rfl, rfl, rfl⟩

/-! ### The copies of a dry run -/

/-- Planned copies, written one after the other. The answer is how many succeed. -/
def replay {m : Type → Type} [Monad m] [Host m] : List PlannedCopy → m Nat
  | [] => pure 0
  | copy :: rest => do
    let outcome ← copyRenamed copy false
    let later ← replay rest
    match outcome with
    | .ok () => return later + 1
    | .error _ => return later

namespace RunState

theorem sameNames_copyAll {summary other : Summary} (h : summary.SameNames other) (task : Task)
    (files : List RenamedFile) (state state' : RunState) :
    (copyAll (m := StateM RunState) task summary files state).1.SameNames
      (copyAll (m := StateM RunState) task other files state').1 := by
  induction files generalizing summary other state state' with
  | nil => exact h
  | cons file rest ih =>
    obtain ⟨after, hrun, -⟩ := copyOne_apply task summary file state rfl
    obtain ⟨after', hrun', -⟩ := copyOne_apply task other file state' rfl
    rw [copyAll_cons hrun, copyAll_cons hrun']
    apply ih
    have hrenamed := h.count .renamed
    exact ((Summary.SameNames.afterCopy _ _ _).trans hrenamed).trans
      (Summary.SameNames.afterCopy _ _ _).symm

/-- In a dry run the copies are planned, and files only change by reports. -/
theorem summary_copyAll_of_dryRun (task : Task) (files : List RenamedFile) {summary : Summary}
    (hdry : summary.dryRun = true) (state : RunState) :
    (copyAll (m := StateM RunState) task summary files state).1 =
        summary.withPlans (files.map task.copyOf) ∧
      state.OnlyReports (copyAll (m := StateM RunState) task summary files state).2 := by
  induction files generalizing summary state with
  | nil =>
    refine ⟨?_, OnlyReports.refl state⟩
    rw [List.map_nil, Summary.withPlans, List.append_nil]
    rfl
  | cons file rest ih =>
    have hplanned : (copyRenamed (task.copyOf file) summary.dryRun :
        StateM RunState (Except Failure Unit))
        (state.report (.fileRenamed file.source file.target)) =
          (.ok (), (state.report (.fileRenamed file.source file.target)).report
            (.copyPlanned (task.copyOf file).source (task.copyOf file).target)) := by
      rw [hdry]
      rfl
    obtain ⟨after, hrun, hafter⟩ := copyOne_apply task summary file state hplanned
    have hnext : (summary.count .renamed).afterCopy (task.copyOf file) (.ok ()) =
        (summary.count .renamed).plan (task.copyOf file) := if_pos hdry
    rw [hnext] at hrun
    have hstill : ((summary.count .renamed).plan (task.copyOf file)).dryRun = true := hdry
    obtain ⟨hlater, hrest⟩ := ih hstill after
    rw [copyAll_cons hrun]
    refine ⟨?_, ?_⟩
    · rw [hlater, Summary.withPlans_plan, List.map_cons]
    · exact (((OnlyReports.report _ _).trans (OnlyReports.report _ _)).trans hafter).trans hrest

theorem run_copyAll_of_dryRun (task : Task) (files : List RenamedFile) {summary : Summary}
    (hdry : summary.dryRun = true) (state : RunState) :
    (copyAll (m := StateM RunState) task summary files state).1.planned =
        summary.planned ++ files.map task.copyOf ∧
      state.OnlyReports (copyAll (m := StateM RunState) task summary files state).2 := by
  obtain ⟨hsummary, hreports⟩ := summary_copyAll_of_dryRun task files hdry state
  rw [hsummary]
  exact ⟨rfl, hreports⟩

/-- A replay changes the files as copies on a tree do, but for the log file, and tells how many of
them succeed. -/
theorem run_replay (copies : List PlannedCopy) {state : RunState} {tree : FileTree}
    (h : FileTree.SameBut state.LogsTo state.files tree)
    (hsources : ∀ copy ∈ copies, ¬ state.LogsTo (tree.placeOf copy.source)) :
    (replay (m := StateM RunState) copies state).1 = ((state.withFiles tree).copied copies).length ∧
      FileTree.SameBut state.LogsTo (replay (m := StateM RunState) copies state).2.files
        (tree.copyFiles copies) := by
  induction copies generalizing state tree with
  | nil => exact ⟨rfl, h⟩
  | cons copy rest ih =>
    have hsource := hsources copy List.mem_cons_self
    obtain ⟨outcome, after, hrun, hlogging, hfaults, hfiles, hok⟩ :=
      run_writeCopy copy state (fun _ => id) fun hlog => absurd (h.placeOf_eq _ ▸ hlog) hsource
    obtain ⟨hfault, hcopy⟩ := h.writeCopy fun hlog => absurd hlog hsource
    have hlogs : after.LogsTo = state.LogsTo := logsTo_congr hlogging
    have hhere := (FileTree.content?_writeCopy tree copy).2
    obtain ⟨hcount, hsame⟩ := ih (hlogs ▸ hfiles.trans hcopy) fun other hother => by
      rw [hlogs, FileTree.placeOf_congr hhere]
      exact hsources other (List.mem_cons_of_mem copy hother)
    have hbind : replay (m := StateM RunState) (copy :: rest) state =
        match outcome with
        | .ok () => ((replay (m := StateM RunState) rest after).1 + 1,
            (replay (m := StateM RunState) rest after).2)
        | .error _ => replay (m := StateM RunState) rest after := by
      rw [replay, copyRenamed, if_neg Bool.false_ne_true]
      simp only [bind, StateT.bind, hrun]
      cases outcome <;> rfl
    have hkeeps : (state.withFiles tree).KeepsTimes = state.KeepsTimes :=
      keepsTimes_congr rfl h.here_eq.symm
    have hrest := @copied_congr ((state.withFiles tree).withFiles (tree.writeCopy copy).1)
      (after.withFiles (tree.writeCopy copy).1) rfl hfaults
    rw [hfault, ← hkeeps] at hok
    rw [hrest.1] at hcount
    rw [hbind, copied_cons, files_withFiles]
    cases outcome with
    | ok done =>
      rw [if_pos (hok.mp rfl), List.length_cons]
      exact ⟨congrArg (· + 1) hcount, hlogs ▸ hsame⟩
    | error failure =>
      rw [if_neg (mt hok.mpr (by simp))]
      exact ⟨hcount, hlogs ▸ hsame⟩

/-! ### A dry run and the real run -/

/-- A dry run changes nothing but the log file, and it fails exactly as the real run does. If both
succeed they tell the same about the names, and the copies that the dry run plans, written from the
same files, leave the files of the real run, with as many successes. The log file must not be copied
for this, and differs. -/
theorem process_dryRun (settings : Settings) (state : RunState) :
    FileTree.SameBut state.LogsTo (state.perform (process settings true)).2.files state.files ∧
      (∀ failure, (state.perform (process settings true)).1 = .error failure ↔
        (state.perform (process settings false)).1 = .error failure) ∧
      ∀ dry real, (state.perform (process settings true)).1 = .ok dry →
        (state.perform (process settings false)).1 = .ok real →
        dry.SameNames real ∧
          ((∀ copy ∈ dry.planned, ¬ state.LogsTo (state.files.placeOf copy.source)) →
            ∃ successes replayed,
              replay (m := StateM RunState) dry.planned state = (successes, replayed) ∧
              real.tally.copied = successes ∧
              FileTree.SameBut state.LogsTo replayed.files
                (state.perform (process settings false)).2.files) := by
  obtain ⟨mid, hmid, hdry⟩ := perform_process state settings true
  obtain ⟨mid', -, hreal⟩ := perform_process state settings false
  cases hplan : state.files.plan settings with
  | error failure =>
    rw [hplan] at hdry hreal
    dsimp only at hdry hreal
    rw [hdry, hreal]
    refine ⟨hmid.sameBut, fun _ => Iff.rfl, ?_⟩
    intro dry real hok
    simp at hok
  | ok plan =>
    rw [hplan] at hdry hreal
    obtain ⟨after, hdry, hafter⟩ := hdry
    obtain ⟨after', hreal, -⟩ := hreal
    obtain ⟨hplanned, hcopies⟩ := run_copyAll_of_dryRun plan.task plan.report.renamed
      (plan.dryRun_summary true) mid
    rw [hdry, hreal]
    refine ⟨((hmid.trans hcopies).trans hafter).sameBut, fun failure => by simp, ?_⟩
    intro dry real hd hr
    obtain rfl := Except.ok.inj hd
    obtain rfl := Except.ok.inj hr
    refine ⟨sameNames_copyAll (plan.sameNames_summary true false) _ _ _ _, fun hlog => ?_⟩
    rw [hplanned, plan.planned_summary, List.nil_append] at hlog ⊢
    obtain ⟨plan', hplan', hcopies'⟩ := exists_plan_of_process hreal
    obtain rfl : plan = plan' := Except.ok.inj (hplan.symm.trans hplan')
    obtain ⟨htally, hfiles⟩ := hcopies' hlog
    obtain ⟨hcount, hreplayed⟩ := run_replay plan.copies
      (FileTree.SameBut.refl state.LogsTo state.files) hlog
    exact ⟨_, _, rfl, htally.trans hcount.symm, hreplayed.trans hfiles.symm⟩

/-- Settings that take the leading zeros of numbers away, within one directory. -/
def stripInPlace : Settings where
  inputDirectory := some (.ofText "in")
  outputDirectory := some (.ofText "in/../in")
  inputPattern := some "x{n:d+}.tif"
  outputPattern := some "x{n:d+}.tif"

def oneNumber : RunState where
  files := ⟨[([Text.Utf8.octets "in"], .directory),
    ([Text.Utf8.octets "in", Text.Utf8.octets "x01.tif"], .file (Text.Utf8.octets "data"))], []⟩

theorem process_dryRun_in_place :
    ∃ dry real, (oneNumber.perform (process stripInPlace true)).1 = .ok dry ∧
      (oneNumber.perform (process stripInPlace false)).1 = .ok real ∧
      dry.planned = [⟨.ofText "in/x01.tif", .ofText "in/../in/x1.tif"⟩] ∧ dry.SameNames real ∧
      ∃ successes replayed,
        replay (m := StateM RunState) dry.planned oneNumber = (successes, replayed) ∧
        real.tally.copied = successes ∧
        FileTree.SameBut oneNumber.LogsTo replayed.files
          (oneNumber.perform (process stripInPlace false)).2.files := by
  have hdry : (oneNumber.perform (process stripInPlace true)).1 =
      .ok ⟨true, { scanned := 1, renamed := 1 },
        [⟨.ofText "in/x01.tif", .ofText "in/../in/x1.tif"⟩], []⟩ := by
    decide +kernel
  have hreal : (oneNumber.perform (process stripInPlace false)).1 =
      .ok ⟨false, { scanned := 1, renamed := 1, copied := 1 }, [], []⟩ := by
    decide +kernel
  obtain ⟨-, -, hboth⟩ := process_dryRun stripInPlace oneNumber
  obtain ⟨hnames, hreplay⟩ := hboth _ _ hdry hreal
  refine ⟨_, _, hdry, hreal, rfl, hnames, hreplay ?_⟩
  exact fun copy _ => not_logsTo_of_logging_eq_none rfl _

end RunState

end PatternRename
