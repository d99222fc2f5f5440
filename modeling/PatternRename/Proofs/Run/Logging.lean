import PatternRename.Proofs.Renaming.RoundTrip
import PatternRename.Proofs.Run.Alike

/-!
# Logging and renaming

A log file is a file like any other: if a run finds it where it looks for files, it counts. A run
that keeps clear of what logging needs does the same in whatever way it logs.

## Main definitions

- `Options.withoutLogging` — the options that do not say how to log
- `LoggingMatters` — two runs that differ for the way they log

## Main results

- `runArguments_of_keepsClear` — two runs that log in different ways
- `logging_matters` — runs that come across what logging needs
-/

namespace PatternRename

/-! ### Two ways of logging -/

/-- The options of a command line without those that say how to log. -/
def Options.withoutLogging (options : Options) : Options :=
  { options with logFile := "", logLocally := false, verbose := 0 }

/-- What a run comes across does not depend on the options that say how to log. -/
theorem FileTree.keepsClear_withoutLogging_iff [Readers] {files made : Location → Prop}
    {home : String} {options : Options} {tree : FileTree} :
    tree.KeepsClear files made home options.withoutLogging ↔
      tree.KeepsClear files made home options :=
  ⟨fun h => ⟨h.here, h.settings, h.task, h.targets⟩,
    fun h => ⟨h.here, h.settings, h.task, h.targets⟩⟩

theorem FileTree.planFor_withoutLogging [Readers] (tree : FileTree) (home : String)
    (options : Options) :
    tree.planFor home options.withoutLogging = tree.planFor home options := rfl

/-- The log file of one of two runs. -/
def RunState.EitherLogsTo (one other : RunState) (place : Location) : Prop :=
  one.LogsTo place ∨ other.LogsTo place

/-- Two runs whose command lines differ in how to log, and that both start logging, end with one
exit code and leave the same files, away from their log files and from directories that only one of
them has made for its log file, where nothing was. For this they must keep clear of these. -/
theorem runArguments_of_keepsClear [Readers] {state one other : RunState}
    {surroundings : Surroundings} {first second : List String} {options others : Options}
    (hwf : state.files.WellFormed)
    (hfirst : Readers.readArguments first = .ok options)
    (hsecond : Readers.readArguments second = .ok others)
    (hsame : options.withoutLogging = others.withoutLogging)
    (hone : state.perform (logPath surroundings options >>= startLog options.verbosity) =
      (.ok (), one))
    (hother : state.perform (logPath surroundings others >>= startLog others.verbosity) =
      (.ok (), other))
    (hclear : one.files.KeepsClear (one.EitherLogsTo other)
      (FileTree.MadeInOne one.files other.files) surroundings.home options)
    (hclear' : other.files.KeepsClear (one.EitherLogsTo other)
      (FileTree.MadeInOne one.files other.files) surroundings.home others) :
    (runArguments (m := StateM RunState) surroundings first state).1 =
        (runArguments (m := StateM RunState) surroundings second state).1 ∧
      (∀ place, ¬ one.LogsTo place → ¬ other.LogsTo place →
        (¬ FileTree.MadeInOne one.files other.files place →
          (runArguments (m := StateM RunState) surroundings first state).2.files.get? place =
            (runArguments (m := StateM RunState) surroundings second state).2.files.get? place) ∧
        (FileTree.MadeInOne one.files other.files place → ∀ content,
          (runArguments (m := StateM RunState) surroundings first state).2.files.get? place ≠
              some (.file content) ∧
            (runArguments (m := StateM RunState) surroundings second state).2.files.get? place ≠
              some (.file content))) ∧
      ∀ place, FileTree.MadeInOne one.files other.files place →
        options.logLocally ≠ others.logLocally ∧ place ∈ state.files.way surroundings.ownDirectory ∧
          state.files.get? place = none := by
  have hprepared : FileTree.Prepared (one.EitherLogsTo other) _ state.files one.files :=
    (RunState.prepared_of_perform hone).mono (fun _ => Or.inl) fun _ => id
  have hprepared' : FileTree.Prepared (one.EitherLogsTo other) _ state.files other.files :=
    (RunState.prepared_of_perform hother).mono (fun _ => Or.inr) fun _ => id
  -- each run does what it does on the tree that it finds
  obtain ⟨after, hrun, hfiles⟩ := exists_runArguments_of_started hfirst hone
    fun _ plan hplan copy hcopy hlog => by
      obtain ⟨-, -, -, -, hfree⟩ := FileTree.of_mem_copies hwf hprepared hclear hplan hcopy
      exact hfree (Or.inl hlog)
  obtain ⟨after', hrun', hfiles'⟩ := exists_runArguments_of_started hsecond hother
    fun _ plan hplan copy hcopy hlog => by
      obtain ⟨-, -, -, -, hfree⟩ := FileTree.of_mem_copies hwf hprepared' hclear' hplan hcopy
      exact hfree (Or.inr hlog)
  -- and there it does not matter how it logs
  have hdry : others.dryRun = options.dryRun := by
    change others.withoutLogging.dryRun = options.withoutLogging.dryRun
    rw [hsame]
  rw [← FileTree.keepsClear_withoutLogging_iff, ← hsame,
    FileTree.keepsClear_withoutLogging_iff] at hclear'
  rw [← FileTree.planFor_withoutLogging, ← hsame, FileTree.planFor_withoutLogging] at hrun' hfiles'
  rw [hdry] at hfiles'
  have halike := FileTree.planFor_alike hwf hprepared hprepared' hclear hclear'
  have hoff := FileTree.sameOff_carryOut hwf hprepared hprepared' hclear hclear'
  rw [hrun, hrun']
  refine ⟨halike.exitCode_eq, fun place hlog hlog' => ?_,
    fun place hmade => RunState.of_madeInOne hone hother hmade⟩
  have hfree : ¬ one.EitherLogsTo other place := not_or.mpr ⟨hlog, hlog'⟩
  rw [hfiles.get?_eq place hlog, hfiles'.get?_eq place hlog']
  exact ⟨hoff.get?_eq place hfree, fun hmade => hoff.no_file place hmade hfree⟩

/-! ### Runs on one image -/

instance (state : RunState) (place : Location) : Decidable (state.LogsTo place) :=
  decidable_of_iff _ RunState.logsTo_iff.symm

instance (one other : RunState) (place : Location) : Decidable (one.EitherLogsTo other place) :=
  inferInstanceAs (Decidable (_ ∨ _))

/-- A home directory that has no directory of the program yet. -/
def newUser : Surroundings where
  home := "/home"
  configDirectory := .ofText "/home/config"

/-- An input directory with one image, one that is empty, and a settings file that says nothing. -/
def oneImageOfTwo : RunState where
  files := ⟨[([Text.Utf8.octets "home"], .directory),
    ([Text.Utf8.octets "home", Text.Utf8.octets "config"], .directory),
    ([Text.Utf8.octets "in"], .directory),
    ([Text.Utf8.octets "in", Text.Utf8.octets "1.tif"], .file (Text.Utf8.octets "data")),
    ([Text.Utf8.octets "empty"], .directory),
    ([Text.Utf8.octets "empty.yaml"], .file [])], []⟩

/-- The pattern of names that are one digit. -/
def digitName : String :=
  "{n:d}.tif"

def digitPattern : Pattern where
  tokens := [.field ⟨"n", .digit (.fixed 1)⟩, .literal ".tif"]

def renumber (input output outputPattern : String) (more : List String) : List String :=
  ["-i", input, "-o", output, "-f", digitName, "-p", outputPattern] ++ more

/-- The options of a command line that says nothing more. -/
def renumberOptions (input output outputPattern : String) : Options where
  inputDirectory := some input
  outputDirectory := some output
  inputPattern := some digitName
  outputPattern := some outputPattern

/-- The directory that is made for the log file. -/
def ownDirectory : String :=
  "/home/config/file_rename"

def renumberTask : Task where
  inputDirectory := .ofText "in"
  outputDirectory := .ofText ownDirectory
  inputPattern := digitName
  outputPattern := digitName
  renamer := ⟨digitPattern, digitPattern, rfl, by decide +kernel⟩

theorem plan_renumber {tree : FileTree} {listing : Listing} {report : Report}
    (hplaces : tree.kind? (.ofText "in") = some .directory ∧
      tree.kind? (.ofText ownDirectory) ≠ some .file)
    (hlisting : tree.listing (.ofText "in") = .ok listing)
    (hreport : renumberTask.renamer.rename listing.names = .ok report) :
    tree.plan ((renumberOptions "in" ownDirectory digitName).settings newUser.home) =
      .ok ⟨renumberTask, listing, report⟩ := by
  have hrenamer : Renamer.ofTexts digitName digitName = .ok renumberTask.renamer :=
    Renamer.ofTexts_eq_ok_iff.mpr ⟨by decide +kernel, by decide +kernel⟩
  have htask : ((renumberOptions "in" ownDirectory digitName).settings newUser.home).task =
      .ok renumberTask :=
    Settings.task_eq_ok_iff.mpr ⟨by decide +kernel, by decide +kernel, rfl, rfl, hrenamer⟩
  refine FileTree.plan_eq_ok_iff.mpr ⟨?_, hlisting, hreport⟩
  exact FileTree.taskFor_eq_ok_iff.mpr ⟨htask, Task.checkPlaces_eq_ok_iff.mpr hplaces⟩

theorem keepsClear_renumber {files made : Location → Prop} {tree : FileTree} {listing : Listing}
    {leftOut : List LeftOut}
    (hplaces : tree.kind? (.ofText "in") = some .directory ∧
      tree.kind? (.ofText ownDirectory) ≠ some .file)
    (hlisting : tree.listing (.ofText "in") = .ok listing)
    (hreport : renumberTask.renamer.rename listing.names = .ok ⟨[⟨"1.tif", "1.tif"⟩], leftOut⟩)
    (hnames : ∀ name ∈ listing.names, name ≠ "run.log" →
      ¬ files (tree.placeOf (renumberTask.inputPath name)))
    (hfiles : ∀ spot ∈ tree.way (.ofText ownDirectory), ¬ files spot)
    (hstays : tree.StaysIn made (.ofText "in") ∧ tree.StaysIn made (.ofText ownDirectory))
    (hmade : ¬ made tree.here ∧ ¬ made (tree.placeOf (.ofText "in")) ∧
      ¬ made (tree.placeOf (.ofText (ownDirectory ++ "/1.tif")))) :
    tree.KeepsClear files made newUser.home (renumberOptions "in" ownDirectory digitName) := by
  obtain ⟨hhere, hinput, htarget⟩ := hmade
  refine FileTree.keepsClear_of_plan rfl rfl (plan_renumber hplaces hlisting hreport) hhere ?_ ?_
  · refine ⟨hstays.1, hinput, hstays.2, hfiles _ (FileTree.placeOf_mem_way tree _),
      fun listing' hlisting' name hname hfile => ?_⟩
    obtain rfl := Except.ok.inj (hlisting.symm.trans hlisting')
    -- only the log file is one of the files, and it is left out
    obtain rfl : name = "run.log" := by
      by_contra hne
      exact hnames name hname hne hfile
    have hleftOut : renumberTask.renamer.LeavesOut "run.log" :=
      ⟨.noMatch digitName "run.log", by decide +kernel, rfl⟩
    exact hleftOut
  · intro copy hcopy
    obtain rfl := List.mem_singleton.mp hcopy
    have hcopied : (Task.copyOf renumberTask ⟨"1.tif", "1.tif"⟩).target =
        .ofText (ownDirectory ++ "/1.tif") := by decide +kernel
    have hparent : (Path.ofText (ownDirectory ++ "/1.tif")).parent? =
        some (.ofText ownDirectory) := by decide +kernel
    rw [show (Task.copyOf _ _).target = _ from hcopied]
    refine ⟨htarget, fun parent hparent' => ?_⟩
    obtain rfl := Option.some.inj (hparent.symm.trans hparent')
    exact hfiles

/-- A run that tells more and logs into its input directory. -/
def intoInput : Options :=
  { renumberOptions "in" ownDirectory digitName with
    logFile := "in/run.log", logLocally := true, verbose := 1 }

/-- A run that makes the directory for its log file. -/
def intoOwn : Options :=
  renumberOptions "in" ownDirectory digitName

def begunOn (options : Options) : RunState :=
  (oneImageOfTwo.perform (logPath newUser options >>= startLog options.verbosity)).2

/-- A file of one of the two runs. -/
abbrev LogOfEither : Location → Prop :=
  (begunOn intoInput).EitherLogsTo (begunOn intoOwn)

/-- The directory that only one of the two runs makes. -/
abbrev MadeByOne : Location → Prop :=
  FileTree.MadeInOne (begunOn intoInput).files (begunOn intoOwn).files

theorem keepsClear_intoInput :
    (begunOn intoInput).files.KeepsClear LogOfEither MadeByOne newUser.home intoInput := by
  have hlisting : (begunOn intoInput).files.listing (.ofText "in") =
      .ok ⟨[⟨.ofText "in/1.tif", "1.tif"⟩, ⟨.ofText "in/run.log", "run.log"⟩], []⟩ := by
    apply FileTree.listing_of_sorted
    · decide +kernel
    · exact (by decide +kernel : (begunOn intoInput).files.list (.ofText "in") =
        .ok [(Text.Utf8.octets "1.tif", .file), (Text.Utf8.octets "run.log", .file)])
    · decide +kernel
    · decide +kernel
  have hsame : intoInput.withoutLogging =
      (renumberOptions "in" ownDirectory digitName).withoutLogging := rfl
  rw [← FileTree.keepsClear_withoutLogging_iff, hsame, FileTree.keepsClear_withoutLogging_iff]
  exact @keepsClear_renumber LogOfEither MadeByOne _ _ [⟨"run.log", .noMatch digitName "run.log"⟩]
    (by decide +kernel) hlisting (by decide +kernel) (by decide +kernel) (by decide +kernel)
    (by decide +kernel) (by decide +kernel)

theorem keepsClear_intoOwn :
    (begunOn intoOwn).files.KeepsClear LogOfEither MadeByOne newUser.home intoOwn := by
  have hlisting : (begunOn intoOwn).files.listing (.ofText "in") =
      .ok ⟨[⟨.ofText "in/1.tif", "1.tif"⟩], []⟩ := by decide +kernel
  exact @keepsClear_renumber LogOfEither MadeByOne _ _ [] (by decide +kernel) hlisting
    (by decide +kernel) (by decide +kernel) (by decide +kernel) (by decide +kernel)
    (by decide +kernel)

/-- One run logs into its input directory, in a file that it leaves out, and tells more; the other
one makes the directory for its log file, which is also the output directory of both. -/
theorem runArguments_of_keepsClear_unmatched :
    (runArguments (m := StateM RunState) newUser
        (renumber "in" ownDirectory digitName ["-v", "-L", "-l", "in/run.log"]) oneImageOfTwo).1 =
      (runArguments (m := StateM RunState) newUser (renumber "in" ownDirectory digitName [])
        oneImageOfTwo).1 ∧
    ∀ place, place ≠ ["in", "run.log"].map Text.Utf8.octets →
      place ≠ ["home", "config", "file_rename", "file_rename.log"].map Text.Utf8.octets →
      place ≠ ["home", "config", "file_rename"].map Text.Utf8.octets →
      (runArguments (m := StateM RunState) newUser
          (renumber "in" ownDirectory digitName ["-v", "-L", "-l", "in/run.log"])
          oneImageOfTwo).2.files.get? place =
        (runArguments (m := StateM RunState) newUser (renumber "in" ownDirectory digitName [])
          oneImageOfTwo).2.files.get? place := by
  obtain ⟨hexit, hfiles, hmade⟩ := @runArguments_of_keepsClear _ oneImageOfTwo (begunOn intoInput)
    (begunOn intoOwn) newUser
    (renumber "in" ownDirectory digitName ["-v", "-L", "-l", "in/run.log"])
    (renumber "in" ownDirectory digitName []) intoInput intoOwn (by decide +kernel)
    (by decide +kernel) (by decide +kernel) rfl (Prod.ext (by decide +kernel) rfl)
    (Prod.ext (by decide +kernel) rfl) keepsClear_intoInput keepsClear_intoOwn
  have hlogFile : (begunOn intoInput).logFile? =
      some (["in", "run.log"].map Text.Utf8.octets) := by decide +kernel
  have hlogFile' : (begunOn intoOwn).logFile? =
      some (["home", "config", "file_rename", "file_rename.log"].map Text.Utf8.octets) := by
    decide +kernel
  have hfree : ∀ spot ∈ oneImageOfTwo.files.way newUser.ownDirectory,
      oneImageOfTwo.files.get? spot = none →
        spot = ["home", "config", "file_rename"].map Text.Utf8.octets := by decide +kernel
  refine ⟨hexit, fun place hlog hlog' hown => (hfiles place ?_ ?_).1 ?_⟩
  · rw [RunState.logsTo_iff, hlogFile]
    exact fun heq => hlog (Option.some.inj heq).symm
  · rw [RunState.logsTo_iff, hlogFile']
    exact fun heq => hlog' (Option.some.inj heq).symm
  · intro hplace
    obtain ⟨-, hway, hnone⟩ := hmade place hplace
    exact hown (hfree place hway hnone)

/-! ### Runs that come across log files -/

/-- Two runs whose command lines differ only in how to log, and that both start logging, end with
different exit codes, or differ at a place that is the log file of neither. -/
def LoggingMatters (surroundings : Surroundings) (state : RunState) (first second : List String) :
    Prop :=
  ∃ options others one other, Options.ofArguments first = .ok options ∧
    Options.ofArguments second = .ok others ∧ options.withoutLogging = others.withoutLogging ∧
    state.perform (logPath surroundings options >>= startLog options.verbosity) = (.ok (), one) ∧
    state.perform (logPath surroundings others >>= startLog others.verbosity) = (.ok (), other) ∧
    ((runArguments (m := StateM RunState) surroundings first state).1 ≠
        (runArguments (m := StateM RunState) surroundings second state).1 ∨
      ∃ place, ¬ one.LogsTo place ∧ ¬ other.LogsTo place ∧
        (runArguments (m := StateM RunState) surroundings first state).2.files.get? place ≠
          (runArguments (m := StateM RunState) surroundings second state).2.files.get? place)

section Runs

variable {surroundings : Surroundings} {state : RunState} {first second : List String}
  (options others : Options)
  (hread : Options.ofArguments first = .ok options ∧ Options.ofArguments second = .ok others ∧
    options.withoutLogging = others.withoutLogging)
  (hbegun : (state.perform (logPath surroundings options >>= startLog options.verbosity)).1 =
      .ok () ∧
    (state.perform (logPath surroundings others >>= startLog others.verbosity)).1 = .ok ())

include hread hbegun

theorem loggingMatters_of_exitCode
    (h : (runArguments (m := StateM RunState) surroundings first state).1 ≠
      (runArguments (m := StateM RunState) surroundings second state).1) :
    LoggingMatters surroundings state first second :=
  ⟨options, others, _, _, hread.1, hread.2.1, hread.2.2, Prod.ext hbegun.1 rfl,
    Prod.ext hbegun.2 rfl, Or.inl h⟩

theorem loggingMatters_of_place (place : Location)
    (hlog : ¬ (state.perform (logPath surroundings options >>= startLog options.verbosity)).2.LogsTo
        place ∧
      ¬ (state.perform (logPath surroundings others >>= startLog others.verbosity)).2.LogsTo place)
    (h : (runArguments (m := StateM RunState) surroundings first state).2.files.get? place ≠
      (runArguments (m := StateM RunState) surroundings second state).2.files.get? place) :
    LoggingMatters surroundings state first second :=
  ⟨options, others, _, _, hread.1, hread.2.1, hread.2.2, Prod.ext hbegun.1 rfl,
    Prod.ext hbegun.2 rfl, Or.inr ⟨place, hlog.1, hlog.2, h⟩⟩

end Runs

/-- How a run logs matters if its log file is among the files that it renames, in the place of its
output directory or its settings file, or on the way to a new path. It also matters if the path of
its input directory, its settings file or its output directory leads through the directory that is
made for the log file. This directory itself is there afterwards. -/
theorem logging_matters :
    LoggingMatters newUser oneImageOfTwo
      (renumber "empty" "out" digitName ["-L", "-l", "empty/5.tif"])
      (renumber "empty" "out" digitName ["-L", "-l", "run.log"]) ∧
    LoggingMatters newUser oneImageOfTwo
      (renumber "in" "out" digitName ["-L", "-l", "out"])
      (renumber "in" "out" digitName ["-L", "-l", "run.log"]) ∧
    LoggingMatters newUser oneImageOfTwo
      (renumber "in" "out" digitName ["-c", "run.yaml", "-L", "-l", "run.yaml"])
      (renumber "in" "out" digitName ["-c", "run.yaml", "-L", "-l", "run.log"]) ∧
    LoggingMatters newUser oneImageOfTwo
      (renumber "in" "." ("new/" ++ digitName) ["-L", "-l", "new"])
      (renumber "in" "." ("new/" ++ digitName) ["-L", "-l", "run.log"]) ∧
    LoggingMatters newUser oneImageOfTwo
      (renumber ownDirectory "out" digitName [])
      (renumber ownDirectory "out" digitName ["-L"]) ∧
    LoggingMatters newUser oneImageOfTwo
      (renumber "in" "out" digitName ["-c", ownDirectory ++ "/../../../empty.yaml"])
      (renumber "in" "out" digitName ["-c", ownDirectory ++ "/../../../empty.yaml", "-L"]) ∧
    LoggingMatters newUser oneImageOfTwo
      (renumber "in" (ownDirectory ++ "/../../../in/1.tif") digitName [])
      (renumber "in" (ownDirectory ++ "/../../../in/1.tif") digitName ["-L"]) ∧
    LoggingMatters newUser oneImageOfTwo
      (renumber "in" "out" digitName [])
      (renumber "in" "out" digitName ["-L"]) := by
  refine ⟨?_, ?_, ?_, ?_, ?_, ?_, ?_, ?_⟩
  · exact loggingMatters_of_place
      { renumberOptions "empty" "out" digitName with
        logFile := "empty/5.tif", logLocally := true }
      { renumberOptions "empty" "out" digitName with
        logFile := "run.log", logLocally := true }
      (by decide +kernel) (by decide +kernel)
      [Text.Utf8.octets "out", Text.Utf8.octets "5.tif"] (by decide +kernel) (by decide +kernel)
  · exact loggingMatters_of_exitCode
      { renumberOptions "in" "out" digitName with logFile := "out", logLocally := true }
      { renumberOptions "in" "out" digitName with logFile := "run.log", logLocally := true }
      (by decide +kernel) (by decide +kernel) (by decide +kernel)
  · exact loggingMatters_of_exitCode
      { renumberOptions "in" "out" digitName with
        settingsFile := some "run.yaml", logFile := "run.yaml", logLocally := true }
      { renumberOptions "in" "out" digitName with
        settingsFile := some "run.yaml", logFile := "run.log", logLocally := true }
      (by decide +kernel) (by decide +kernel) (by decide +kernel)
  · exact loggingMatters_of_place
      { renumberOptions "in" "." ("new/" ++ digitName) with logFile := "new", logLocally := true }
      { renumberOptions "in" "." ("new/" ++ digitName) with
        logFile := "run.log", logLocally := true }
      (by decide +kernel) (by decide +kernel)
      [Text.Utf8.octets "new", Text.Utf8.octets "1.tif"] (by decide +kernel) (by decide +kernel)
  · exact loggingMatters_of_exitCode
      (renumberOptions ownDirectory "out" digitName)
      { renumberOptions ownDirectory "out" digitName with logLocally := true }
      (by decide +kernel) (by decide +kernel) (by decide +kernel)
  · exact loggingMatters_of_exitCode
      { renumberOptions "in" "out" digitName with
        settingsFile := some (ownDirectory ++ "/../../../empty.yaml") }
      { renumberOptions "in" "out" digitName with
        settingsFile := some (ownDirectory ++ "/../../../empty.yaml"), logLocally := true }
      (by decide +kernel) (by decide +kernel) (by decide +kernel)
  · exact loggingMatters_of_exitCode
      (renumberOptions "in" (ownDirectory ++ "/../../../in/1.tif") digitName)
      { renumberOptions "in" (ownDirectory ++ "/../../../in/1.tif") digitName with
        logLocally := true }
      (by decide +kernel) (by decide +kernel) (by decide +kernel)
  · exact loggingMatters_of_place
      (renumberOptions "in" "out" digitName)
      { renumberOptions "in" "out" digitName with logLocally := true }
      (by decide +kernel) (by decide +kernel)
      [Text.Utf8.octets "home", Text.Utf8.octets "config", Text.Utf8.octets "file_rename"]
      (by decide +kernel) (by decide +kernel)

end PatternRename
