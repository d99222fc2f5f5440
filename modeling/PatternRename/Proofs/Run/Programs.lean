import PatternRename.Application
import PatternRename.Proofs.Run.DryRun

/-!
# The whole program

Once logging has started, what a run does is a function of the files that it finds: the settings are
read, a plan is made, and its copies are written. Only the log file tells of more.

## Main definitions

- `FileTree.settingsFor`, `FileTree.planFor` — the settings and the plan that options lead to
- `FileTree.carryOut`, `exitCode` — the files that a run leaves, and its exit code

## Main results

- `exists_runArguments_of_started` — the whole program in terms of the files that it finds
-/

namespace PatternRename

namespace FileTree

/-! ### A run on a tree -/

def settingsIn [Readers] (tree : FileTree) (home : String) (path : Path) :
    Except Failure Settings :=
  match tree.read path with
  | .error fault => .error (.settingsUnreadable path fault)
  | .ok content => Settings.ofFile home path content

/-- The settings of a run: those in the settings file, under those on the command line. -/
def settingsFor [Readers] (tree : FileTree) (home : String) (options : Options) :
    Except Failure Settings := do
  let base ← match options.settingsFile with
    | none => .ok {}
    | some file => tree.settingsIn home (Readers.expandHome home file)
  return base.merge (options.settings home)

def planFor [Readers] (tree : FileTree) (home : String) (options : Options) :
    Except Failure Plan := do
  let settings ← tree.settingsFor home options
  tree.plan settings

/-- The files that a run leaves: those that the copies of its plan leave, unless it has no plan or
is a dry run. -/
def carryOut (tree : FileTree) (dryRun : Bool) : Except Failure Plan → FileTree
  | .error _ => tree
  | .ok plan => if dryRun then tree else tree.copyFiles plan.copies

theorem SameBut.plan_eq {hidden : Location → Prop} {tree other : FileTree}
    (h : SameBut hidden tree other) (hchildren : tree.children = other.children)
    (settings : Settings) : tree.plan settings = other.plan settings := by
  simp only [plan, taskFor, h.kind?_eq, h.listing_eq hchildren]

end FileTree

namespace RunState

variable {state after : RunState}

/-! ### Settings -/

/-- The state after a settings file was read. If there are settings in it, this is told. -/
def afterReading [Readers] (state : RunState) (home : String) (path : Path) : RunState :=
  match state.files.settingsIn home path with
  | .error _ => state
  | .ok _ => state.report (.settingsLoaded path)

def afterGathering [Readers] (state : RunState) (home : String) : Option String → RunState
  | none => state
  | some file => state.afterReading home (Readers.expandHome home file)

theorem reported_afterGathering [Readers] (state : RunState) (home : String)
    (file : Option String) :
    state.Reported (state.afterGathering home file) := by
  cases file with
  | none => exact Reported.refl
  | some file =>
    rw [afterGathering, afterReading]
    split
    · exact Reported.refl
    · exact Reported.refl.report _

theorem perform_readSettings [Readers] (state : RunState) (home : String) (path : Path) :
    state.perform (readSettings home path) =
      (state.files.settingsIn home path, state.afterReading home path) := by
  have hrun : (Host.read path : StateM RunState (Except Fault (List UInt8))) state =
    (state.files.read path, state) := rfl
  rw [readSettings, perform_lift_bind, hrun, afterReading, FileTree.settingsIn]
  dsimp only
  cases state.files.read path with
  | error fault => rfl
  | ok content =>
    dsimp only
    rw [perform_bind, perform_liftExcept]
    cases Settings.ofFile home path content <;> rfl

theorem perform_gatherSettings [Readers] (state : RunState) (home : String) (options : Options) :
    state.perform (gatherSettings home options) =
      (state.files.settingsFor home options, state.afterGathering home options.settingsFile) := by
  rw [gatherSettings, FileTree.settingsFor]
  cases options.settingsFile with
  | none => rfl
  | some file =>
    dsimp only
    rw [perform_bind, perform_readSettings]
    cases state.files.settingsIn home (Readers.expandHome home file) <;> rfl

/-! ### Plans and copies -/

/-- A run that has a plan succeeds, and leaves what the copies of the plan leave, or in a dry run
what was there. Only the log file may differ, which must not be copied. -/
theorem exists_process_of_plan {settings : Settings} {plan : Plan} (dryRun : Bool)
    (hplan : state.files.plan settings = .ok plan)
    (hlog : dryRun = false → ∀ copy ∈ plan.copies,
      ¬ state.LogsTo (state.files.placeOf copy.source)) :
    ∃ summary after, state.perform (process settings dryRun) = (.ok summary, after) ∧
      after.logging = state.logging ∧
      FileTree.SameBut state.LogsTo after.files (state.files.carryOut dryRun (.ok plan)) := by
  obtain ⟨mid, hmid, hprocess⟩ := perform_process state settings dryRun
  rw [hplan] at hprocess
  obtain ⟨after, hrun, hafter⟩ := hprocess
  refine ⟨_, after, hrun, ?_⟩
  cases dryRun with
  | true =>
    obtain ⟨-, hcopies⟩ :=
      run_copyAll_of_dryRun plan.task plan.report.renamed (plan.dryRun_summary true) mid
    have hall := (hmid.trans hcopies).trans hafter
    exact ⟨hall.logging_eq, hall.sameBut⟩
  | false =>
    obtain ⟨_, -, hlogging, -, -⟩ := exists_summary_of_process hrun
    exact ⟨hlogging, sameBut_of_process hrun hplan (hlog rfl)⟩

/-- A run with its last report has the outcome of its plan. -/
theorem exists_process_runEnds {settings : Settings} (dryRun : Bool)
    (hlog : dryRun = false → ∀ plan, state.files.plan settings = .ok plan →
      ∀ copy ∈ plan.copies, ¬ state.LogsTo (state.files.placeOf copy.source)) :
    ∃ after, state.perform (process settings dryRun >>= fun summary =>
          liftM (Host.report (.runEnds summary.tally) : StateM RunState Unit)) =
        ((state.files.plan settings).map fun _ => (), after) ∧
      after.logging = state.logging ∧
      FileTree.SameBut state.LogsTo after.files
        (state.files.carryOut dryRun (state.files.plan settings)) := by
  rw [perform_bind]
  cases hplan : state.files.plan settings with
  | error failure =>
    obtain ⟨after, hafter, hprocess⟩ := perform_process state settings dryRun
    rw [hplan] at hprocess
    have hrun : state.perform (process settings dryRun) = (.error failure, after) := hprocess
    rw [hrun]
    exact ⟨after, rfl, hafter.logging_eq, hafter.sameBut⟩
  | ok plan =>
    obtain ⟨summary, after, hrun, hlogging, hfiles⟩ :=
      exists_process_of_plan dryRun hplan fun hreal => hlog hreal plan hplan
    have hend := OnlyReports.report after (.runEnds summary.tally)
    rw [hrun]
    exact ⟨_, rfl, hend.logging_eq.trans hlogging,
      (logsTo_congr hlogging ▸ hend.sameBut).trans hfiles⟩

/-! ### From the start of logging to the end -/

variable {begun : RunState} {surroundings : Surroundings} {options : Options}

/-- First of all logging is started, and then the settings are read. -/
theorem runOptions_eq [Readers] (surroundings : Surroundings) (options : Options) :
    (runOptions surroundings options : ExceptT Failure (StateM RunState) Unit) =
      (logPath surroundings options >>= startLog options.verbosity) >>= fun _ =>
        gatherSettings surroundings.home options >>= fun settings =>
          process settings options.dryRun >>= fun summary =>
            liftM (Host.report (.runEnds summary.tally) : StateM RunState Unit) := by
  rw [bind_assoc]
  rfl

/-- Once logging has started, a run has the outcome of its plan. -/
theorem exists_perform_runOptions [Readers]
    (hbegun : state.perform (logPath surroundings options >>= startLog options.verbosity) =
      (.ok (), begun))
    (hlog : options.dryRun = false → ∀ plan,
      begun.files.planFor surroundings.home options = .ok plan →
        ∀ copy ∈ plan.copies, ¬ begun.LogsTo (begun.files.placeOf copy.source)) :
    ∃ after, state.perform (runOptions surroundings options) =
        ((begun.files.planFor surroundings.home options).map fun _ => (), after) ∧
      after.logging = begun.logging ∧
      FileTree.SameBut begun.LogsTo after.files (begun.files.carryOut options.dryRun
        (begun.files.planFor surroundings.home options)) := by
  have hmid := (reported_afterGathering begun surroundings.home options.settingsFile).onlyReports
  rw [runOptions_eq, perform_bind, hbegun]
  dsimp only
  rw [perform_bind, perform_gatherSettings]
  generalize begun.afterGathering surroundings.home options.settingsFile = mid at hmid
  rw [FileTree.planFor] at hlog ⊢
  cases hsettings : begun.files.settingsFor surroundings.home options with
  | error failure => exact ⟨mid, rfl, hmid.logging_eq, hmid.sameBut⟩
  | ok settings =>
    -- the reports so far change nothing for the plan
    have hplan := hmid.sameBut.plan_eq hmid.children_eq settings
    rw [hsettings, ok_bind, ← hplan] at hlog
    rw [ok_bind, ← hplan]
    have hlog' : options.dryRun = false → ∀ plan, mid.files.plan settings = .ok plan →
        ∀ copy ∈ plan.copies, ¬ mid.LogsTo (mid.files.placeOf copy.source) := by
      intro hreal plan hmade copy hcopy
      rw [hmid.logsTo_eq, hmid.sameBut.placeOf_eq]
      exact hlog hreal plan hmade copy hcopy
    obtain ⟨after, hrun, hlogging, hfiles⟩ := exists_process_runEnds options.dryRun hlog'
    rw [hmid.logsTo_eq] at hfiles
    refine ⟨after, hrun, hlogging.trans hmid.logging_eq, hfiles.trans ?_⟩
    cases hmade : mid.files.plan settings with
    | error failure => exact hmid.sameBut
    | ok plan =>
      rw [FileTree.carryOut, FileTree.carryOut]
      split
      · exact hmid.sameBut
      · rename_i hreal
        refine (hmid.sameBut.copyFiles fun copy hcopy hsource => ?_).2
        exact absurd hsource (hlog (eq_false_of_ne_true hreal) plan hmade copy hcopy)

theorem onlyReports_showFailure (failure : Failure) (state : RunState) :
    state.OnlyReports (showFailure (m := StateM RunState) failure state).2 := by
  have hcomplain : ∀ (before : RunState) (text : String), before.OnlyReports
      ((Host.complain text : StateM RunState Unit) before).2 :=
    fun _ _ => ⟨rfl, rfl, rfl, FileTree.SameBut.refl _ _, rfl⟩
  rw [showFailure]
  split
  · exact (OnlyReports.report state _).trans (hcomplain _ _)
  · exact hcomplain state _

end RunState

/-- The exit code of a run with some outcome. -/
def exitCode {α : Type} : Except Failure α → UInt32
  | .error failure => failure.exitCode
  | .ok _ => 0

/-- The whole program has the outcome of the plan for the files that it finds once logging has
started, and leaves what carrying it out leaves, but for the log file, which must not be copied. -/
theorem exists_runArguments_of_started [Readers] {state begun : RunState}
    {surroundings : Surroundings} {arguments : List String} {options : Options}
    (harguments : Readers.readArguments arguments = .ok options)
    (hbegun : state.perform (logPath surroundings options >>= startLog options.verbosity) =
      (.ok (), begun))
    (hlog : options.dryRun = false → ∀ plan,
      begun.files.planFor surroundings.home options = .ok plan →
        ∀ copy ∈ plan.copies, ¬ begun.LogsTo (begun.files.placeOf copy.source)) :
    ∃ after, runArguments (m := StateM RunState) surroundings arguments state =
        (exitCode (begun.files.planFor surroundings.home options), after) ∧
      FileTree.SameBut begun.LogsTo after.files (begun.files.carryOut options.dryRun
        (begun.files.planFor surroundings.home options)) := by
  obtain ⟨after, hrun, hlogging, hfiles⟩ := RunState.exists_perform_runOptions hbegun hlog
  rw [runArguments, harguments]
  dsimp only
  have hrun' : (ExceptT.run (runOptions surroundings options) : StateM RunState _) state =
    ((begun.files.planFor surroundings.home options).map fun _ => (), after) := hrun
  simp only [bind, StateT.bind, hrun']
  cases hplan : begun.files.planFor surroundings.home options with
  | ok plan =>
    rw [hplan] at hfiles
    exact ⟨after, rfl, hfiles⟩
  | error failure =>
    rw [hplan] at hfiles
    have hshown := (RunState.onlyReports_showFailure failure after).sameBut
    rw [RunState.logsTo_congr hlogging] at hshown
    exact ⟨_, rfl, hshown.trans hfiles⟩

end PatternRename
