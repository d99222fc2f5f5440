import PatternRename.Proofs.Files.Growth
import PatternRename.Proofs.Run.Steps

/-!
# The steps of a copy

A copy of a run makes the directory that it needs, writes the file and gives it the times of its
source. Each of these steps can fail, and what the steps before it did stays. In particular a copy
whose times cannot be set has failed although it is written.

## Main definitions

- `RunState.KeepsTimes` — copies that can be given the times of their sources
- `RunState.CopyStep` — the ways that a copy can go

## Main results

- `RunState.run_keepTimes` — the times of a file for its copy
- `RunState.copyStep_writeCopy` — a copy goes in one of these ways
-/

namespace PatternRename

/-- Whether a failure is about the times of a file. -/
def Failure.concernsTimes : Failure → Bool
  | .fileOperation operation _ _ =>
    operation = "read timestamps of" || operation = "set timestamps of"
  | _ => false

namespace RunState

variable {state after : RunState}

/-! ### The times of a copy -/

/-- Nothing keeps a run from giving a copy the times of its source. -/
def KeepsTimes (state : RunState) (copy : PlannedCopy) : Prop :=
  state.timeFaults.metadata (state.files.placeOf copy.source) = none ∧
    state.timeFaults.modified (state.files.placeOf copy.source) = none ∧
      state.timeFaults.setting (state.files.placeOf copy.target) = none

instance : DecidablePred state.KeepsTimes :=
  fun _ => inferInstanceAs (Decidable (_ ∧ _ ∧ _))

theorem keepsTimes_congr (hfaults : after.timeFaults = state.timeFaults)
    (hhere : after.files.here = state.files.here) : after.KeepsTimes = state.KeepsTimes := by
  funext copy
  rw [KeepsTimes, KeepsTimes, hfaults, FileTree.placeOf_congr hhere, FileTree.placeOf_congr hhere]

theorem metadata_of_locate {path : Path} {place : Location} {entry : Entry}
    (hlocate : state.files.locate path = .ok place)
    (hentry : state.files.get? place = some entry) :
    state.metadata path =
      match state.timeFaults.metadata place with
      | some fault => .error fault
      | none => .ok ⟨match state.timeFaults.modified place with
          | some fault => .error fault
          | none => .ok (state.times place).modified, (state.times place).accessed⟩ := by
  rw [metadata, hlocate, ok_bind, hentry, if_neg (by simp)]
  cases state.timeFaults.metadata place <;> rfl

theorem setTimes_of_locate {path : Path} {place : Location} {content : List UInt8}
    (hlocate : state.files.locate path = .ok place)
    (hfile : state.files.get? place = some (.file content)) (given : FileTimes) :
    state.setTimes path given =
      match state.timeFaults.setting place with
      | some fault => (some fault, state)
      | none => (none, state.giveTimes place given) := by
  cases hset : state.timeFaults.setting place <;> simp only [setTimes, hlocate, hfile, hset]

/-- Once a file was copied, its copy is given its times, or there is a failure about them and
nothing changes. -/
theorem run_keepTimes {copy : PlannedCopy}
    (hsource : ∃ content, state.files.locate copy.source = .ok (state.files.placeOf copy.source) ∧
      state.files.get? (state.files.placeOf copy.source) = some (.file content))
    (htarget : ∃ content, state.files.locate copy.target = .ok (state.files.placeOf copy.target) ∧
      state.files.get? (state.files.placeOf copy.target) = some (.file content)) :
    (state.KeepsTimes copy ∧
      (keepTimes copy : StateM RunState (Except Failure Unit)) state =
        (.ok (), state.giveTimes (state.files.placeOf copy.target)
          (state.times (state.files.placeOf copy.source)))) ∨
    (¬ state.KeepsTimes copy ∧ ∃ failure, failure.concernsTimes = true ∧
      (keepTimes copy : StateM RunState (Except Failure Unit)) state =
        (.error failure, state)) := by
  obtain ⟨held, hlocate, hheld⟩ := hsource
  obtain ⟨content, hlocate', hcontent⟩ := htarget
  have hmetadata : (Host.metadata copy.source : StateM RunState (Except Fault Metadata)) state =
      (state.metadata copy.source, state) := rfl
  have hset : ∀ given, (Host.setTimes copy.target given : StateM RunState (Option Fault)) state =
      state.setTimes copy.target given := fun _ => rfl
  rw [metadata_of_locate hlocate hheld] at hmetadata
  rw [keepTimes, KeepsTimes]
  simp only [bind, StateT.bind, hmetadata]
  cases state.timeFaults.metadata (state.files.placeOf copy.source) with
  | some fault => exact Or.inr ⟨by simp, _, rfl, rfl⟩
  | none =>
    cases state.timeFaults.modified (state.files.placeOf copy.source) with
    | some fault => exact Or.inr ⟨by simp, _, rfl, rfl⟩
    | none =>
      simp only [bind, StateT.bind, hset, setTimes_of_locate hlocate' hcontent]
      cases state.timeFaults.setting (state.files.placeOf copy.target) with
      | some fault => exact Or.inr ⟨by simp, _, rfl, rfl⟩
      | none => exact Or.inl ⟨by simp, rfl⟩

theorem run_keepTimes_of_copyFile {copy : PlannedCopy} {files : FileTree}
    (h : state.files.copyFile copy.source copy.target = (files, none)) :
    (state.KeepsTimes copy ∧
      (keepTimes copy : StateM RunState (Except Failure Unit)) (state.withFiles files) =
        (.ok (), (state.withFiles files).giveTimes (state.files.placeOf copy.target)
          (state.times (state.files.placeOf copy.source)))) ∨
    (¬ state.KeepsTimes copy ∧ ∃ failure, failure.concernsTimes = true ∧
      (keepTimes copy : StateM RunState (Except Failure Unit)) (state.withFiles files) =
        (.error failure, state.withFiles files)) := by
  have hhere : files.here = state.files.here := by
    have hkept := (FileTree.content?_copyFile state.files copy.source copy.target).2.2
    rwa [h] at hkept
  have hplaces := FileTree.placeOf_congr hhere
  have hkeeps : (state.withFiles files).KeepsTimes = state.KeepsTimes := keepsTimes_congr rfl hhere
  obtain ⟨hsource, htarget⟩ := @FileTree.locate_copyFile state.files copy.source copy.target
    (by rw [h])
  rw [h, ← hplaces] at hsource htarget
  have hrun := @run_keepTimes (state.withFiles files) copy hsource htarget
  rwa [hkeeps, withFiles, hplaces, hplaces] at hrun

/-! ### The ways of a copy -/

/-- The ways that a copy can go, with its outcome and the state after it. The copy is reported
before the file is written. -/
inductive CopyStep (copy : PlannedCopy) (state : RunState) :
    Except Failure Unit → RunState → Prop
  | noDirectory {parent : Path} {made : FileTree} {fault : Fault}
    (hmade : state.files.makeParent copy.target = (made, some fault)) :
    CopyStep copy state (.error (.fileOperation "create directory" parent fault))
      (state.withFiles made)
  | notWritten {made : FileTree} {mid : RunState} {fault : Fault}
    (hmade : state.files.makeParent copy.target = (made, none))
    (hreport : (state.withFiles made).OnlyReports mid)
    (hcopy : mid.files.copyFile copy.source copy.target = (mid.files, some fault)) :
    CopyStep copy state (.error (.fileOperation "copy" copy.source fault)) mid
  | timesRefused {made files : FileTree} {mid : RunState} {failure : Failure}
    (hmade : state.files.makeParent copy.target = (made, none))
    (hreport : (state.withFiles made).OnlyReports mid)
    (hcopy : mid.files.copyFile copy.source copy.target = (files, none))
    (htimes : ¬ state.KeepsTimes copy) (hconcerns : failure.concernsTimes = true) :
    CopyStep copy state (.error failure) (mid.withFiles files)
  | written {made files : FileTree} {mid : RunState}
    (hmade : state.files.makeParent copy.target = (made, none))
    (hreport : (state.withFiles made).OnlyReports mid)
    (hcopy : mid.files.copyFile copy.source copy.target = (files, none))
    (htimes : state.KeepsTimes copy) :
    CopyStep copy state (.ok ())
      ((mid.withFiles files).giveTimes (state.files.placeOf copy.target)
        (state.times (state.files.placeOf copy.source)))

theorem run_makeParent (target : Path) (state : RunState) :
    ∃ made, state.files.makeParent target = (made, none) ∧
        (makeParent target : StateM RunState (Except Failure Unit)) state =
          (.ok (), state.withFiles made) ∨
      ∃ parent fault, state.files.makeParent target = (made, some fault) ∧
        (makeParent target : StateM RunState (Except Failure Unit)) state =
          (.error (.fileOperation "create directory" parent fault), state.withFiles made) := by
  rw [makeParent, FileTree.makeParent]
  cases target.parent? with
  | none => exact ⟨_, Or.inl ⟨rfl, rfl⟩⟩
  | some parent =>
    have hrun : (Host.makeDirectories parent : StateM RunState (Option Fault)) state =
      ((state.files.makeDirectories parent).2,
        state.withFiles (state.files.makeDirectories parent).1) := rfl
    simp only [bind, StateT.bind, hrun]
    obtain ⟨made, fault⟩ := state.files.makeDirectories parent
    cases fault with
    | none => exact ⟨made, Or.inl ⟨rfl, rfl⟩⟩
    | some fault => exact ⟨made, Or.inr ⟨parent, fault, rfl, rfl⟩⟩

/-- A copy of a run goes in one of the ways that there are. -/
theorem copyStep_writeCopy (copy : PlannedCopy) (state : RunState) :
    ∃ outcome after, (writeCopy copy : StateM RunState (Except Failure Unit)) state =
      (outcome, after) ∧ CopyStep copy state outcome after := by
  obtain ⟨made, ⟨hmade, hrun⟩ | ⟨parent, fault, hmade, hrun⟩⟩ := run_makeParent copy.target state
  · rw [writeCopy]
    simp only [bind, StateT.bind, hrun]
    have hreport := OnlyReports.report (state.withFiles made) (.copying copy.source copy.target)
    generalize hmid : (state.withFiles made).report (.copying copy.source copy.target) = mid
      at hreport
    have hhere : mid.files.here = state.files.here :=
      hreport.sameBut.here_eq.trans (FileTree.here_of_makeParent hmade)
    have hfile : (Host.copyFile copy.source copy.target : StateM RunState (Option Fault)) mid =
      ((mid.files.copyFile copy.source copy.target).2,
        mid.withFiles (mid.files.copyFile copy.source copy.target).1) := rfl
    simp only [report_apply, hmid, hfile]
    have hunchanged := (FileTree.content?_copyFile mid.files copy.source copy.target).2.1
    generalize hcopy : mid.files.copyFile copy.source copy.target = copied at hunchanged
    obtain ⟨files, fault⟩ := copied
    cases fault with
    | some fault =>
      obtain rfl : files = mid.files := hunchanged (by simp)
      exact ⟨_, _, rfl, .notWritten hmade hreport hcopy⟩
    | none =>
      have hkeeps : mid.KeepsTimes = state.KeepsTimes :=
        keepsTimes_congr hreport.timeFaults_eq hhere
      have htimes : mid.times = state.times := hreport.times_eq
      have hkept := run_keepTimes_of_copyFile hcopy
      rw [hkeeps, htimes, FileTree.placeOf_congr hhere, FileTree.placeOf_congr hhere] at hkept
      rcases hkept with ⟨hkeeps, hrun⟩ | ⟨hrefused, failure, hconcerns, hrun⟩
      · exact ⟨_, _, hrun, .written hmade hreport hcopy hkeeps⟩
      · exact ⟨_, _, hrun, .timesRefused hmade hreport hcopy hrefused hconcerns⟩
  · refine ⟨.error (.fileOperation "create directory" parent fault), _, ?_, .noDirectory hmade⟩
    rw [writeCopy]
    simp only [bind, StateT.bind, hrun]
    rfl

end RunState

end PatternRename
