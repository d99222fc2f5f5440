import PatternRename.Proofs.Renaming.RoundTrip
import PatternRename.Proofs.Run.Steps

/-!
# Runs that fail

All that can keep a run from its end is decided before the first copy: the options and their
patterns, the directories, and the names of the whole collection. So a run that fails has written no
copy and made no directory. What goes wrong with a copy is counted and does not end the run.

## Main results

- `FileTree.plan_eq_error_iff` — why there is no plan
- `RunState.files_of_process_error` — a run that fails leaves the files alone
-/

namespace PatternRename

/-- There is no plan if there is no task, if the input directory cannot be listed, or if its files
cannot be named. -/
theorem FileTree.plan_eq_error_iff {tree : FileTree} {settings : Settings} {failure : Failure} :
    tree.plan settings = .error failure ↔ tree.taskFor settings = .error failure ∨
      ∃ task, tree.taskFor settings = .ok task ∧
        (tree.listing task.inputDirectory = .error failure ∨
          ∃ listing, tree.listing task.inputDirectory = .ok listing ∧
            task.renamer.rename listing.names = .error failure) := by
  -- once the names are made nothing fails
  have hlast : ∀ {outcome : Except Failure Report} {make : Report → Plan},
      (outcome >>= fun report => pure (make report)) = .error failure ↔
        outcome = .error failure := by
    intro outcome make
    cases outcome <;> simp [bind, Except.bind, pure, Except.pure]
  rw [plan, bind_eq_error_iff]
  refine or_congr_right (exists_congr fun task => and_congr_right fun _ => ?_)
  rw [bind_eq_error_iff]
  exact or_congr_right (exists_congr fun listing => and_congr_right fun _ => hlast)

namespace RunState

/-- A run fails exactly if there is no task for its settings, its input directory cannot be listed,
or its files cannot be named, and it leaves the files as they were. Only a log file, if there is
one, has got more lines. -/
theorem files_of_process_error (state : RunState) (settings : Settings) (dryRun : Bool) :
    (∀ failure, (state.perform (process settings dryRun)).1 = .error failure ↔
      state.files.taskFor settings = .error failure ∨
        ∃ task, state.files.taskFor settings = .ok task ∧
          (state.files.listing task.inputDirectory = .error failure ∨
            ∃ listing, state.files.listing task.inputDirectory = .ok listing ∧
              task.renamer.rename listing.names = .error failure)) ∧
    ∀ failure after, state.perform (process settings dryRun) = (.error failure, after) →
      (state.logFile? = none → after.files = state.files) ∧
      ∀ place, state.logFile? = some place →
        (∃ lines : List (List UInt8), after.files =
          lines.foldl (fun files line => files.appendAt place line) state.files) ∧
        FileTree.SameBut (· = place) after.files state.files := by
  obtain ⟨mid, hmid, hprocess⟩ := reported_process state settings dryRun
  constructor
  · intro failure
    rw [← FileTree.plan_eq_error_iff]
    cases hplan : state.files.plan settings with
    | error other =>
      rw [hplan] at hprocess
      have hrun : state.perform (process settings dryRun) = (.error other, mid) := hprocess
      rw [hrun, Except.error.injEq, Except.error.injEq]
    | ok plan =>
      -- every copy is tried, and the run goes on whatever comes of it
      rw [hplan] at hprocess
      obtain ⟨after, hrun, -⟩ := hprocess
      rw [hrun]
      exact iff_of_false (by simp) (by simp)
  · intro failure after h
    rw [h] at hprocess
    cases hplan : state.files.plan settings with
    | ok plan => simp [hplan] at hprocess
    | error other =>
      rw [hplan] at hprocess
      obtain ⟨-, rfl⟩ := Prod.mk.inj hprocess
      obtain ⟨hnone, hsome⟩ := hmid.exists_files_eq
      refine ⟨hnone, fun place hplace => ⟨hsome place hplace, ?_⟩⟩
      have hlogs : state.LogsTo = (· = place) := by
        funext spot
        rw [logsTo_iff, hplace, Option.some.injEq]
        exact propext eq_comm
      exact hlogs ▸ hmid.onlyReports.sameBut

/-- Settings that number images from one to nine. -/
def toOneDigit : Settings where
  inputDirectory := some (.ofText "in")
  outputDirectory := some (.ofText "out")
  inputPattern := some "{n:c}"
  outputPattern := some "x{n:d}.tif"

def oneDigit : Task where
  inputDirectory := .ofText "in"
  outputDirectory := .ofText "out"
  inputPattern := "{n:c}"
  outputPattern := "x{n:d}.tif"
  renamer := ⟨⟨[.field ⟨"n", .character (.fixed 1)⟩]⟩,
    ⟨[.literal "x", .field ⟨"n", .digit (.fixed 1)⟩, .literal ".tif"]⟩,
    by decide +kernel, by decide +kernel⟩

def tenNames : List String :=
  ["a", "b", "c", "d", "e", "f", "g", "h", "i", "j"]

def tenFiles : RunState where
  files := ⟨([Text.Utf8.octets "in"], .directory) :: tenNames.map fun name =>
    ([Text.Utf8.octets "in", Text.Utf8.octets name], .file (Text.Utf8.octets "data")), []⟩

theorem listing_tenFiles : tenFiles.files.listing (.ofText "in") =
    .ok ⟨tenNames.map fun name => ⟨.ofText ("in/" ++ name), name⟩, []⟩ := by
  apply FileTree.listing_of_sorted
  · decide +kernel
  · exact (by decide +kernel : tenFiles.files.list (.ofText "in") =
      .ok (tenNames.map fun name => (Text.Utf8.octets name, .file)))
  · decide +kernel
  · decide +kernel

/-- The first nine of ten files could have been copied, and none is. -/
theorem files_of_process_error_tenFiles :
    ∃ after,
      tenFiles.perform (process toOneDigit false) = (.error (.widthOverflow "j" 10 1), after) ∧
      oneDigit.renamer.rename tenNames.dropLast =
        .ok ⟨(tenNames.dropLast.zipIdx 1).map fun (name, n) => ⟨name, "x" ++ toString n ++ ".tif"⟩,
          []⟩ ∧
      after.files = tenFiles.files := by
  have hrenamer : Renamer.ofTexts oneDigit.inputPattern oneDigit.outputPattern =
      .ok oneDigit.renamer :=
    Renamer.ofTexts_eq_ok_iff.mpr ⟨by decide +kernel, by decide +kernel⟩
  have htask : tenFiles.files.taskFor toOneDigit = .ok oneDigit := by
    refine FileTree.taskFor_eq_ok_iff.mpr ⟨?_, by decide +kernel⟩
    exact Settings.task_eq_ok_iff.mpr ⟨rfl, rfl, rfl, rfl, hrenamer⟩
  have hrename : oneDigit.renamer.rename tenNames = .error (.widthOverflow "j" 10 1) := by
    decide +kernel
  obtain ⟨hfails, hkeeps⟩ := files_of_process_error tenFiles toOneDigit false
  have herror := (hfails (.widthOverflow "j" 10 1)).mpr
    (Or.inr ⟨oneDigit, htask, Or.inr ⟨_, listing_tenFiles, hrename⟩⟩)
  have h := Prod.mk.eta (p := tenFiles.perform (process toOneDigit false))
  rw [herror] at h
  exact ⟨_, h.symm, by decide +kernel, (hkeeps _ _ h.symm).1 rfl⟩

end RunState

end PatternRename
