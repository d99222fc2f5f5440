import PatternRename.Proofs.Run.Programs

/-!
# What a run does not read

Once its settings are read, a run reads no file but to copy it. So two runs with the same settings,
on files that differ only in what some hidden files hold, do the same step by step: they have the
same outcome, show and complain about the same, and leave files that differ only in hidden ones. For
this the copy of a hidden file must be hidden as well.

## Main definitions

- `FileTree.Alike` — trees that differ only in what hidden files hold
- `RunState.Alike` — states that differ in hidden files, and in reports on settings files
- `RunState.Agrees` — ends of runs with one outcome, in states that are alike

## Main results

- `RunState.agrees_begin` — how two runs begin
- `RunState.agrees_process` — two runs with the same settings
- `RunState.agrees_runArguments` — two programs whose runs agree
-/

namespace PatternRename

/-! ### Trees that are alike -/

/-- Two trees differ only in what hidden files hold: they have the same entries, and directories
list them in one order. -/
structure FileTree.Alike (hidden : Location → Prop) (tree other : FileTree) : Prop
    extends FileTree.SameBut hidden tree other where
  children_eq : tree.children = other.children

namespace FileTree.Alike

variable {hidden : Location → Prop} {tree other : FileTree}

theorem refl (hidden : Location → Prop) (tree : FileTree) : Alike hidden tree tree :=
  ⟨SameBut.refl hidden tree, rfl⟩

theorem symm (h : Alike hidden tree other) : Alike hidden other tree :=
  ⟨h.toSameBut.symm, h.children_eq.symm⟩

theorem trans {third : FileTree} (h : Alike hidden tree other) (h' : Alike hidden other third) :
    Alike hidden tree third :=
  ⟨h.toSameBut.trans h'.toSameBut, h.children_eq.trans h'.children_eq⟩

/-- Trees that differ in hidden files differ in more files. -/
theorem mono {others : Location → Prop} (h : Alike hidden tree other)
    (hle : ∀ place, hidden place → others place) : Alike others tree other :=
  ⟨h.toSameBut.mono hle, h.children_eq⟩

/-- Directories list the same after an entry was set at a place where nothing was, or an entry of
its kind. -/
theorem children_put (h : Alike hidden tree other) {place : Location} {entry entry' : Entry}
    (hne : place ≠ []) (hkind : entry.kind = entry'.kind)
    (hold : ∀ old, tree.get? place = some old → old.kind = entry.kind) :
    (tree.put place entry).children = (other.put place entry').children := by
  cases htree : tree.get? place with
  | none =>
    have hother := (h.get?_eq_none_iff place).mp htree
    funext spot
    rw [children_put_of_none htree, children_put_of_none hother, h.children_eq, childOf?, childOf?,
      hkind]
  | some old =>
    have hmap := h.kind_eq place
    rw [htree, eq_comm, Option.map_some, Option.map_eq_some_iff] at hmap
    obtain ⟨old', hother, hkind'⟩ := hmap
    rw [children_put_of_kind hne htree (hold old htree), h.children_eq,
      children_put_of_kind hne hother (hkind'.trans ((hold old htree).trans hkind))]

theorem children_put_file (h : Alike hidden tree other) {p : Path} {place : Location}
    (hplace : tree.locateForWriting p = .ok place) (content content' : List UInt8) :
    (tree.put place (.file content)).children = (other.put place (.file content')).children := by
  obtain ⟨-, -, parent, name, -, -, -, -, hfree, rfl⟩ := locateForWriting_eq_ok_iff.mp hplace
  refine h.children_put (by simp) rfl fun old hold => ?_
  cases old with
  | directory => exact absurd hold hfree
  | file octets => rfl

/-- A hidden file may be written anew. -/
theorem put_hidden {place : Location} {old : List UInt8}
    (hold : tree.get? place = some (.file old)) (hplace : hidden place) (content : List UInt8) :
    Alike hidden tree (tree.put place (.file content)) := by
  have hne : place ≠ [] := by
    rintro rfl
    simp [get?] at hold
  have hlists : (tree.put place (.file content)).children = tree.children :=
    children_put_of_kind hne hold rfl
  exact ⟨(sameBut_put_file hold hplace content).symm, hlists.symm⟩

theorem makeDirectories (h : Alike hidden tree other) (p : Path) :
    (tree.makeDirectories p).2 = (other.makeDirectories p).2 ∧
      Alike hidden (tree.makeDirectories p).1 (other.makeDirectories p).1 := by
  rw [FileTree.makeDirectories, FileTree.makeDirectories]
  split
  · exact ⟨rfl, h⟩
  · rw [h.toSameBut.origin_eq]
    refine SameBut.makeAlong_of_related (fun _ _ => Alike.toSameBut) ?_ h _ _
    intro tree other place h hnone
    have hne : place ≠ [] := by
      rintro rfl
      simp [get?] at hnone
    exact ⟨h.toSameBut.put rfl fun _ => rfl, h.children_put hne rfl (by simp [hnone])⟩

/-- The same log file is opened, or none. -/
theorem openForAppending (h : Alike hidden tree other) (p : Path) :
    (∃ fault, tree.openForAppending p = .error fault ∧ other.openForAppending p = .error fault) ∨
      ∃ opened opened' place, tree.openForAppending p = .ok (opened, place) ∧
        other.openForAppending p = .ok (opened', place) ∧ opened.here = tree.here ∧
        Alike hidden opened opened' := by
  rw [FileTree.openForAppending, FileTree.openForAppending, ← h.toSameBut.locateForWriting_eq]
  cases hplace : tree.locateForWriting p with
  | error fault => exact Or.inl ⟨fault, rfl, rfl⟩
  | ok place =>
    refine Or.inr ?_
    dsimp only
    rcases h.get?_cases place with ⟨ht, ho⟩ | ⟨ht, ho⟩ | ⟨_, _, ht, ho, -⟩
    · rw [ht, ho]
      refine ⟨_, _, place, rfl, rfl, rfl, h.toSameBut.put rfl fun _ => rfl, ?_⟩
      exact h.children_put_file hplace [] []
    · rw [ht, ho]
      exact ⟨tree, other, place, rfl, rfl, rfl, h⟩
    · rw [ht, ho]
      exact ⟨tree, other, place, rfl, rfl, rfl, h⟩

theorem copyFile (h : Alike hidden tree other) {source target : Path}
    (hcopy : hidden (other.placeOf source) → hidden (other.placeOf target)) :
    (tree.copyFile source target).2 = (other.copyFile source target).2 ∧
      Alike hidden (tree.copyFile source target).1 (other.copyFile source target).1 := by
  obtain ⟨hfault, hfiles⟩ := h.toSameBut.copyFile hcopy
  refine ⟨hfault, hfiles, ?_⟩
  have hcases := copyFile_cases other source target
  rcases copyFile_cases tree source target with ⟨fault, heq⟩ | ⟨place, content, hplace, heq⟩
  · rcases hcases with ⟨fault', heq'⟩ | ⟨_, _, -, heq'⟩
    · rw [heq, heq', h.children_eq]
    · simp [heq, heq'] at hfault
  · rcases hcases with ⟨fault', heq'⟩ | ⟨place', content', hplace', heq'⟩
    · simp [heq, heq'] at hfault
    · rw [h.toSameBut.locateForWriting_eq, hplace'] at hplace
      obtain rfl := Except.ok.inj hplace
      rw [heq, heq']
      exact (h.symm.children_put_file hplace' content' content).symm

theorem appendAt (h : Alike hidden tree other) (place : Location) (more : List UInt8) :
    Alike hidden (tree.appendAt place more) (other.appendAt place more) := by
  refine ⟨h.toSameBut.appendAt place more, ?_⟩
  rw [children_appendAt, children_appendAt, h.children_eq]

end FileTree.Alike

/-! ### States that are alike -/

/-- A report that a settings file was read. -/
def Shown.isSettingsReport : Shown → Bool
  | .event (.settingsLoaded _) => true
  | _ => false

namespace RunState

/-- Two states with the current directory `here` that differ only in what hidden files hold, and in
the settings files of which it was reported that they were read. -/
structure Alike (hidden : Location → Prop) (here : Location) (state other : RunState) : Prop where
  logging_eq : state.logging = other.logging
  times_eq : state.times = other.times
  timeFaults_eq : state.timeFaults = other.timeFaults
  time_eq : state.time = other.time
  complaints_eq : state.complaints = other.complaints
  shown_eq : state.shown.toList.filter (!·.isSettingsReport) =
    other.shown.toList.filter (!·.isSettingsReport)
  here_eq : state.files.here = here
  files : FileTree.Alike hidden state.files other.files

/-- The log file, if reports on settings files are detailed enough to be written to it. -/
def LogsSettingsTo (state : RunState) (place : Location) : Prop :=
  ∃ logging, state.logging = some logging ∧ logging.level.isShown .debug = true ∧
    logging.file = some place

/-- Two runs end with one outcome, and in states that are alike. -/
def Agrees {α : Type} (hidden : Location → Prop) (here : Location) (done done' : α × RunState) :
    Prop :=
  done.1 = done'.1 ∧ Alike hidden here done.2 done'.2

variable {hidden : Location → Prop} {here : Location} {state other : RunState} {α β : Type}

namespace Alike

theorem refl (hidden : Location → Prop) (state : RunState) :
    Alike hidden state.files.here state state :=
  ⟨rfl, rfl, rfl, rfl, rfl, rfl, rfl, FileTree.Alike.refl _ _⟩

theorem symm (h : Alike hidden here state other) : Alike hidden here other state :=
  ⟨h.logging_eq.symm, h.times_eq.symm, h.timeFaults_eq.symm, h.time_eq.symm, h.complaints_eq.symm,
    h.shown_eq.symm, h.files.here_eq.symm.trans h.here_eq, h.files.symm⟩

theorem trans {third : RunState} (h : Alike hidden here state other)
    (h' : Alike hidden here other third) : Alike hidden here state third :=
  ⟨h.logging_eq.trans h'.logging_eq, h.times_eq.trans h'.times_eq,
    h.timeFaults_eq.trans h'.timeFaults_eq, h.time_eq.trans h'.time_eq,
    h.complaints_eq.trans h'.complaints_eq, h.shown_eq.trans h'.shown_eq, h.here_eq,
    h.files.trans h'.files⟩

theorem mono {others : Location → Prop} (h : Alike hidden here state other)
    (hle : ∀ place, hidden place → others place) : Alike others here state other :=
  { h with files := h.files.mono hle }

theorem withFiles (h : Alike hidden here state other) {files files' : FileTree}
    (hhere : files.here = state.files.here) (hfiles : FileTree.Alike hidden files files') :
    Alike hidden here (state.withFiles files) (other.withFiles files') :=
  { h with here_eq := hhere.trans h.here_eq, files := hfiles }

theorem withLogging (h : Alike hidden here state other) (logging : Option Logging) :
    Alike hidden here { state with logging } { other with logging } :=
  { h with logging_eq := rfl }

theorem giveTimes (h : Alike hidden here state other) (place : Location) (given : FileTimes) :
    Alike hidden here (state.giveTimes place given) (other.giveTimes place given) := by
  refine { h with times_eq := ?_ }
  rw [RunState.giveTimes, RunState.giveTimes, h.times_eq]

theorem push (h : Alike hidden here state other) (shown : Shown) :
    Alike hidden here { state with shown := state.shown.push shown }
      { other with shown := other.shown.push shown } := by
  refine { h with shown_eq := ?_ }
  simp only [Array.toList_push, List.filter_append, h.shown_eq]

theorem report (h : Alike hidden here state other) (event : Event) :
    Alike hidden here (state.report event) (other.report event) := by
  have hpush := h.push (.event event)
  obtain ⟨files, times, timeFaults, logging, shown, complaints, time⟩ := state
  obtain ⟨files', times', timeFaults', logging', shown', complaints', time'⟩ := other
  obtain rfl : logging = logging' := h.logging_eq
  obtain rfl : time = time' := h.time_eq
  rw [RunState.report, RunState.report]
  cases logging with
  | none => exact h
  | some logging =>
    dsimp only
    split
    · obtain ⟨level, file⟩ := logging
      cases file with
      | none => exact hpush
      | some place =>
        -- one line is written to both log files
        exact hpush.withFiles (FileTree.here_appendAt _ _ _) (h.files.appendAt place _)
    · exact h

/-- A report that a settings file was read may be missing, if a log file that tells of it is
hidden. -/
theorem report_settingsLoaded (path : Path)
    (hlog : ∀ place, state.LogsSettingsTo place → hidden place) :
    Alike hidden state.files.here (state.report (.settingsLoaded path)) state := by
  rw [RunState.report]
  split
  · exact refl hidden state
  · rename_i logging hlogging
    split
    · rename_i hshown
      have hpush : Alike hidden state.files.here
          { state with shown := state.shown.push (.event (.settingsLoaded path)) } state :=
        { refl hidden state with shown_eq := by simp [Shown.isSettingsReport] }
      dsimp only
      split
      · exact hpush
      · rename_i place hplace
        have hsame := FileTree.sameBut_appendAt state.files
          (hlog place ⟨logging, hlogging, hshown, hplace⟩)
          (Text.Utf8.octets (Event.fileLine state.time (.settingsLoaded path)))
        exact { hpush with
          here_eq := hsame.here_eq
          files := ⟨hsame, FileTree.children_appendAt _ _ _⟩ }
    · exact refl hidden state

theorem reports (h : Alike hidden here state other) (events : List Event) :
    Alike hidden here (events.foldl RunState.report state)
      (events.foldl RunState.report other) := by
  induction events generalizing state other with
  | nil => exact h
  | cons event rest ih => exact ih (h.report event)

theorem print (h : Alike hidden here state other) (text : String) :
    Alike hidden here (state.print text) (other.print text) := by
  rw [RunState.print, RunState.print]
  split
  · exact h
  · exact h.push (.text text)

theorem complain (h : Alike hidden here state other) (text : String) :
    Alike hidden here { state with complaints := state.complaints ++ text }
      { other with complaints := other.complaints ++ text } :=
  { h with complaints_eq := congrArg (· ++ text) h.complaints_eq }

end Alike

/-! ### Steps that agree -/

namespace Agrees

/-- Steps that agree on states that are alike do so one after the other. -/
theorem bind {action action' : StateM RunState α} {next next' : α → StateM RunState β}
    (h : Agrees hidden here (action state) (action' other))
    (hnext : ∀ a mid mid', action state = (a, mid) → Alike hidden here mid mid' →
      Agrees hidden here (next a mid) (next' a mid')) :
    Agrees hidden here ((action >>= next) state) ((action' >>= next') other) := by
  change Agrees hidden here (next (action state).1 (action state).2)
    (next' (action' other).1 (action' other).2)
  rw [← h.1]
  exact hnext _ _ _ rfl h.2

/-- So do steps that may fail. -/
theorem perform_bind {action action' : ExceptT Failure (StateM RunState) α}
    {next next' : α → ExceptT Failure (StateM RunState) β}
    (h : Agrees hidden here (state.perform action) (other.perform action'))
    (hnext : ∀ a mid mid', state.perform action = (.ok a, mid) →
      other.perform action' = (.ok a, mid') → Alike hidden here mid mid' →
      Agrees hidden here (mid.perform (next a)) (mid'.perform (next' a))) :
    Agrees hidden here (state.perform (action >>= next)) (other.perform (action' >>= next')) := by
  rw [RunState.perform_bind, RunState.perform_bind]
  generalize state.perform action = done at h hnext
  generalize other.perform action' = done' at h hnext
  obtain ⟨outcome, mid⟩ := done
  obtain ⟨outcome', mid'⟩ := done'
  obtain ⟨rfl, halike⟩ : outcome = outcome' ∧ _ := h
  cases outcome with
  | error failure => exact ⟨rfl, halike⟩
  | ok a => exact hnext a mid mid' rfl rfl halike

theorem lift_bind {action action' : StateM RunState α}
    {next next' : α → ExceptT Failure (StateM RunState) β}
    (h : Agrees hidden here (action state) (action' other))
    (hnext : ∀ a mid mid', Alike hidden here mid mid' →
      Agrees hidden here (mid.perform (next a)) (mid'.perform (next' a))) :
    Agrees hidden here
      (state.perform ((liftM action : ExceptT Failure (StateM RunState) α) >>= next))
      (other.perform ((liftM action' : ExceptT Failure (StateM RunState) α) >>= next')) := by
  rw [perform_lift_bind, perform_lift_bind, ← h.1]
  exact hnext _ _ _ h.2

end Agrees

theorem agrees_report (h : Alike hidden here state other) (event : Event) :
    Agrees hidden here ((Host.report event : StateM RunState Unit) state)
      ((Host.report event : StateM RunState Unit) other) :=
  ⟨rfl, h.report event⟩

theorem agrees_reportAll (h : Alike hidden here state other) (events : List Event) :
    Agrees hidden here (reportAll (m := StateM RunState) events state)
      (reportAll (m := StateM RunState) events other) := by
  rw [reportAll_run, reportAll_run]
  exact ⟨rfl, h.reports events⟩

theorem agrees_look (h : Alike hidden here state other) (p : Path) :
    Agrees hidden here ((Host.look p : StateM RunState (Option EntryKind)) state)
      ((Host.look p : StateM RunState (Option EntryKind)) other) :=
  ⟨h.files.kind?_eq p, h⟩

theorem agrees_list (h : Alike hidden here state other) (p : Path) :
    Agrees hidden here
      ((Host.list p : StateM RunState (Except Fault (List (Name × EntryKind)))) state)
      ((Host.list p : StateM RunState (Except Fault (List (Name × EntryKind)))) other) :=
  ⟨h.files.toSameBut.list_eq h.files.children_eq p, h⟩

theorem agrees_makeDirectories (h : Alike hidden here state other) (p : Path) :
    Agrees hidden here ((Host.makeDirectories p : StateM RunState (Option Fault)) state)
      ((Host.makeDirectories p : StateM RunState (Option Fault)) other) := by
  obtain ⟨hfault, hfiles⟩ := h.files.makeDirectories p
  exact ⟨hfault, h.withFiles (FileTree.content?_makeDirectories state.files p).2 hfiles⟩

/-! ### The beginning -/

theorem agrees_makeOwnDirectory (h : Alike hidden here state other) (directory : Path) :
    Agrees hidden here (state.perform (makeOwnDirectory directory))
      (other.perform (makeOwnDirectory directory)) := by
  unfold makeOwnDirectory
  refine (agrees_look h directory).lift_bind fun kind mid mid' hmid => ?_
  split
  · refine (agrees_makeDirectories hmid directory).lift_bind fun fault last last' hlast => ?_
    cases fault <;> exact ⟨rfl, hlast⟩
  · exact ⟨rfl, hmid⟩

theorem agrees_logPath (h : Alike hidden here state other) (surroundings : Surroundings)
    (options : Options) :
    Agrees hidden here (state.perform (logPath surroundings options))
      (other.perform (logPath surroundings options)) := by
  unfold logPath
  dsimp only
  split
  · exact ⟨rfl, h⟩
  · exact (agrees_makeOwnDirectory h _).perform_bind fun _ _ _ _ _ hmid => ⟨rfl, hmid⟩

theorem agrees_startLogging (h : Alike hidden here state other) (level : Level)
    (file : Option Path) :
    Agrees hidden here ((Host.startLogging level file : StateM RunState (Option Fault)) state)
      ((Host.startLogging level file : StateM RunState (Option Fault)) other) := by
  change Agrees hidden here (state.startLogging level file) (other.startLogging level file)
  cases file with
  | none => exact ⟨rfl, h.withLogging _⟩
  | some path =>
    rw [RunState.startLogging, RunState.startLogging]
    rcases h.files.openForAppending path with
      ⟨fault, heq, heq'⟩ | ⟨opened, opened', place, heq, heq', hhere, hopened⟩
    · rw [heq, heq']
      exact ⟨rfl, h⟩
    · rw [heq, heq']
      exact ⟨rfl, (h.withFiles hhere hopened).withLogging _⟩

theorem agrees_startLog (h : Alike hidden here state other) (verbosity : Verbosity) (path : Path) :
    Agrees hidden here (state.perform (startLog verbosity path))
      (other.perform (startLog verbosity path)) := by
  unfold startLog
  refine (agrees_startLogging h _ _).lift_bind fun fault mid mid' hmid => ?_
  cases fault with
  | some fault => exact ⟨rfl, hmid⟩
  | none => exact ⟨rfl, hmid.report _⟩

/-- Logging is started in the same way. -/
theorem agrees_begin (h : Alike hidden here state other) (surroundings : Surroundings)
    (options : Options) :
    Agrees hidden here
      (state.perform (logPath surroundings options >>= startLog options.verbosity))
      (other.perform (logPath surroundings options >>= startLog options.verbosity)) :=
  (agrees_logPath h surroundings options).perform_bind fun path _ _ _ _ hmid =>
    agrees_startLog hmid options.verbosity path

/-! ### Copies -/

theorem agrees_makeParent (h : Alike hidden here state other) (target : Path) :
    Agrees hidden here ((makeParent target : StateM RunState (Except Failure Unit)) state)
      ((makeParent target : StateM RunState (Except Failure Unit)) other) := by
  rw [makeParent]
  cases target.parent? with
  | none => exact ⟨rfl, h⟩
  | some parent =>
    refine (agrees_makeDirectories h parent).bind fun fault mid mid' _ hmid => ?_
    cases fault <;> exact ⟨rfl, hmid⟩

/-- The copy of a hidden file is hidden, wherever paths start from `here`. -/
def HidesCopy (hidden : Location → Prop) (here : Location) (copy : PlannedCopy) : Prop :=
  ∀ tree : FileTree, tree.here = here →
    hidden (tree.placeOf copy.source) → hidden (tree.placeOf copy.target)

theorem agrees_copyFile (h : Alike hidden here state other) {copy : PlannedCopy}
    (hcopy : HidesCopy hidden here copy) :
    Agrees hidden here
      ((Host.copyFile copy.source copy.target : StateM RunState (Option Fault)) state)
      ((Host.copyFile copy.source copy.target : StateM RunState (Option Fault)) other) := by
  obtain ⟨hfault, hfiles⟩ := h.files.copyFile (hcopy other.files h.symm.here_eq)
  exact ⟨hfault, h.withFiles (FileTree.content?_copyFile state.files _ _).2.2 hfiles⟩

theorem agrees_metadata (h : Alike hidden here state other) (p : Path) :
    Agrees hidden here ((Host.metadata p : StateM RunState (Except Fault Metadata)) state)
      ((Host.metadata p : StateM RunState (Except Fault Metadata)) other) := by
  refine ⟨?_, h⟩
  change state.metadata p = other.metadata p
  rw [RunState.metadata, RunState.metadata, h.files.locate_eq, h.times_eq, h.timeFaults_eq]
  simp only [h.files.get?_eq_none_iff]

theorem agrees_setTimes (h : Alike hidden here state other) (p : Path) (given : FileTimes) :
    Agrees hidden here ((Host.setTimes p given : StateM RunState (Option Fault)) state)
      ((Host.setTimes p given : StateM RunState (Option Fault)) other) := by
  change Agrees hidden here (state.setTimes p given) (other.setTimes p given)
  rw [RunState.setTimes, RunState.setTimes, h.files.locate_eq, h.timeFaults_eq]
  cases other.files.locate p with
  | error fault => exact ⟨rfl, h⟩
  | ok place =>
    rcases h.files.get?_cases place with ⟨heq, heq'⟩ | ⟨heq, heq'⟩ | ⟨held, held', heq, heq'⟩
    · simp only [heq, heq']
      exact ⟨rfl, h⟩
    · simp only [heq, heq']
      exact ⟨rfl, h⟩
    · simp only [heq, heq']
      cases other.timeFaults.setting place with
      | some fault => exact ⟨rfl, h⟩
      | none => exact ⟨rfl, h.giveTimes place given⟩

theorem agrees_keepTimes (h : Alike hidden here state other) (copy : PlannedCopy) :
    Agrees hidden here ((keepTimes copy : StateM RunState (Except Failure Unit)) state)
      ((keepTimes copy : StateM RunState (Except Failure Unit)) other) := by
  rw [keepTimes]
  refine (agrees_metadata h copy.source).bind fun found mid mid' _ hmid => ?_
  cases found with
  | error fault => exact ⟨rfl, hmid⟩
  | ok metadata =>
    cases hmodified : metadata.modified with
    | error fault =>
      simp only [hmodified]
      exact ⟨rfl, hmid⟩
    | ok modified =>
      simp only [hmodified]
      refine (agrees_setTimes hmid copy.target _).bind fun fault last last' _ hlast => ?_
      cases fault <;> exact ⟨rfl, hlast⟩

/-- A copy has one outcome, and the same entries come of it, as long as the copy of a hidden file is
hidden. -/
theorem agrees_writeCopy (h : Alike hidden here state other) {copy : PlannedCopy}
    (hcopy : HidesCopy hidden here copy) :
    Agrees hidden here ((writeCopy copy : StateM RunState (Except Failure Unit)) state)
      ((writeCopy copy : StateM RunState (Except Failure Unit)) other) := by
  rw [writeCopy]
  refine (agrees_makeParent h copy.target).bind fun made mid mid' _ hmid => ?_
  cases made with
  | error failure => exact ⟨rfl, hmid⟩
  | ok done =>
    refine (agrees_report hmid _).bind fun _ told told' _ htold => ?_
    refine (agrees_copyFile htold hcopy).bind fun fault last last' _ hlast => ?_
    cases fault with
    | some fault => exact ⟨rfl, hlast⟩
    | none => exact agrees_keepTimes hlast copy

theorem agrees_copyRenamed (h : Alike hidden here state other) {copy : PlannedCopy} {dryRun : Bool}
    (hcopy : dryRun = false → HidesCopy hidden here copy) :
    Agrees hidden here ((copyRenamed copy dryRun : StateM RunState (Except Failure Unit)) state)
      ((copyRenamed copy dryRun : StateM RunState (Except Failure Unit)) other) := by
  rw [copyRenamed]
  cases dryRun with
  | true => exact ⟨rfl, h.report _⟩
  | false => exact agrees_writeCopy h (hcopy rfl)

theorem agrees_copyOne (h : Alike hidden here state other) {task : Task} {summary : Summary}
    {file : RenamedFile}
    (hcopy : summary.dryRun = false → HidesCopy hidden here (task.copyOf file)) :
    Agrees hidden here ((copyOne task summary file : StateM RunState Summary) state)
      ((copyOne task summary file : StateM RunState Summary) other) := by
  rw [copyOne]
  refine (agrees_report h _).bind fun _ told told' _ htold => ?_
  refine (agrees_copyRenamed htold hcopy).bind fun outcome mid mid' _ hmid => ?_
  cases outcome with
  | ok done => exact ⟨rfl, hmid⟩
  | error failure => exact ⟨rfl, hmid.report _⟩

theorem agrees_copyAll (h : Alike hidden here state other) {task : Task} {summary : Summary}
    {files : List RenamedFile}
    (hcopies : summary.dryRun = false → ∀ file ∈ files, HidesCopy hidden here (task.copyOf file)) :
    Agrees hidden here ((copyAll task summary files : StateM RunState Summary) state)
      ((copyAll task summary files : StateM RunState Summary) other) := by
  induction files generalizing summary state other with
  | nil => exact ⟨rfl, h⟩
  | cons file rest ih =>
    have hfirst := agrees_copyOne h fun hreal => hcopies hreal file List.mem_cons_self
    refine hfirst.bind fun next mid mid' hrun hmid => ih hmid fun hreal => ?_
    obtain ⟨after, hone, -⟩ := copyOne_apply task summary file state rfl
    obtain ⟨rfl, -⟩ := Prod.mk.inj (hone.symm.trans hrun)
    rw [dryRun_afterCopy] at hreal
    exact fun other hother => hcopies hreal other (List.mem_cons_of_mem file hother)

/-! ### Runs with the same settings -/

theorem agrees_liftExcept (h : Alike hidden here state other) (outcome : Except Failure α) :
    Agrees hidden here (state.perform (liftM outcome)) (other.perform (liftM outcome)) := by
  rw [perform_liftExcept, perform_liftExcept]
  exact ⟨rfl, h⟩

theorem agrees_prepare (h : Alike hidden here state other) (settings : Settings) :
    Agrees hidden here (state.perform (prepare settings)) (other.perform (prepare settings)) := by
  unfold prepare
  refine (agrees_reportAll h _).lift_bind fun _ told told' htold => ?_
  refine (agrees_liftExcept htold _).perform_bind fun task mid mid' _ _ hmid => ?_
  refine (agrees_look hmid _).lift_bind fun input mid mid' hmid => ?_
  refine (agrees_look hmid _).lift_bind fun output mid mid' hmid => ?_
  refine (agrees_liftExcept hmid _).perform_bind fun _ mid mid' _ _ hmid => ?_
  exact (agrees_report hmid _).lift_bind fun _ last last' hlast => ⟨rfl, hlast⟩

theorem agrees_listDirectory (h : Alike hidden here state other) (directory : Path) :
    Agrees hidden here (state.perform (listDirectory directory))
      (other.perform (listDirectory directory)) := by
  unfold listDirectory
  refine (agrees_report h _).lift_bind fun _ told told' htold => ?_
  refine (agrees_look htold _).lift_bind fun kind mid mid' hmid => ?_
  split
  · exact ⟨rfl, hmid⟩
  · refine (agrees_list hmid directory).lift_bind fun found mid mid' hmid => ?_
    cases found with
    | error fault => exact ⟨rfl, hmid⟩
    | ok entries =>
      exact (agrees_reportAll hmid _).lift_bind fun _ last last' hlast => ⟨rfl, hlast⟩

theorem agrees_renameAll (h : Alike hidden here state other) (renamer : Renamer)
    (names : List String) :
    Agrees hidden here (state.perform (renameAll renamer names))
      (other.perform (renameAll renamer names)) := by
  unfold renameAll
  exact (agrees_reportAll h _).lift_bind fun _ mid mid' hmid => agrees_liftExcept hmid _

/-- Runs with the same settings do the same, as long as the copies of hidden files are hidden. -/
theorem agrees_process (h : Alike hidden here state other) {settings : Settings} {dryRun : Bool}
    (hcopies : dryRun = false → ∀ plan, state.files.plan settings = .ok plan →
      ∀ copy ∈ plan.copies, HidesCopy hidden here copy) :
    Agrees hidden here (state.perform (process settings dryRun))
      (other.perform (process settings dryRun)) := by
  unfold process
  have hfirst := agrees_prepare h settings
  refine hfirst.perform_bind fun task prepared prepared' hprepare _ halike => ?_
  have hlists := agrees_listDirectory halike task.inputDirectory
  refine hlists.perform_bind fun listing listed listed' hlist _ halike => ?_
  dsimp only
  split
  · exact (agrees_report halike _).lift_bind fun _ last last' hlast => ⟨rfl, hlast⟩
  refine (agrees_report halike _).lift_bind fun _ told told' halike => ?_
  refine (agrees_renameAll halike _ _).perform_bind fun report named named' hrename _ halike => ?_
  -- these are the parts of the plan
  have hplan : state.files.plan settings = .ok ⟨task, listing, report⟩ := by
    obtain ⟨_, htask, hreported⟩ := perform_prepare state settings
    obtain ⟨_, hlisting, -⟩ := perform_listDirectory prepared task.inputDirectory
    obtain ⟨_, hreport, -⟩ := perform_renameAll told task.renamer listing.names
    obtain ⟨htask, rfl⟩ := Prod.mk.inj (htask.symm.trans hprepare)
    have hquiet := hreported.onlyReports
    rw [hquiet.sameBut.listing_eq hquiet.children_eq] at hlisting
    exact FileTree.plan_eq_ok_iff.mpr ⟨htask, (Prod.mk.inj (hlisting.symm.trans hlist)).1,
      (Prod.mk.inj (hreport.symm.trans hrename)).1⟩
  refine (agrees_reportAll halike _).lift_bind fun _ told told' halike => ?_
  have hall := @agrees_copyAll hidden here _ _ halike task
    ((({ dryRun } : Summary).found listing.files.length).ofReport report) report.renamed
    fun hreal file hfile => by
      have hdry := Plan.dryRun_summary ⟨task, listing, report⟩ dryRun
      exact hcopies (hdry.symm.trans hreal) _ hplan _ (List.mem_map_of_mem hfile)
  refine hall.lift_bind fun summary last last' halike => ?_
  refine (agrees_report halike _).lift_bind fun _ last last' halike => ?_
  exact ⟨rfl, halike.print _⟩

/-! ### Programs -/

theorem agrees_showFailure (h : Alike hidden here state other) (failure : Failure) :
    Agrees hidden here (showFailure (m := StateM RunState) failure state)
      (showFailure (m := StateM RunState) failure other) := by
  rw [showFailure]
  split
  · exact (agrees_report h _).bind fun _ mid mid' _ hmid => ⟨rfl, hmid.complain _⟩
  · exact ⟨rfl, h.complain _⟩

/-- Programs whose runs agree end with the same exit code. -/
theorem agrees_runArguments [Readers] {surroundings : Surroundings} {first second : List String}
    {options others : Options} (hfirst : Readers.readArguments first = .ok options)
    (hsecond : Readers.readArguments second = .ok others)
    (h : Agrees hidden here (state.perform (runOptions surroundings options))
      (other.perform (runOptions surroundings others))) :
    Agrees hidden here (runArguments (m := StateM RunState) surroundings first state)
      (runArguments (m := StateM RunState) surroundings second other) := by
  rw [runArguments, runArguments, hfirst, hsecond]
  have hrun : Agrees hidden here
      ((ExceptT.run (runOptions surroundings options) : StateM RunState _) state)
      ((ExceptT.run (runOptions surroundings others) : StateM RunState _) other) := h
  refine hrun.bind fun outcome mid mid' _ hmid => ?_
  cases outcome with
  | ok done => exact ⟨rfl, hmid⟩
  | error failure =>
    exact (agrees_showFailure hmid failure).bind fun _ last last' _ hlast => ⟨rfl, hlast⟩

end RunState

end PatternRename
