import PatternRename.FileTree.Update
import PatternRename.Run.Host

/-!
# Runs as functions of a state

Everything that a run can change: the files and their times, what was shown, and the log. A run on
this host is a function from a state to an outcome and a state.

A file tree holds names and octets. Owners, permissions and links are not part of it, and neither
are full or broken disks: an operation on the tree fails for what is in the tree. The times of files
are the exception, since a file can often be copied where its times cannot be set. So a state says
where they cannot be read or set. The times are those that runs set; what a system notes by itself
when a file is written or read is left out.

## Main definitions

- `TimeFaults` — where the times of files cannot be read or set
- `Shown`, `Logging`, `RunState` — what a run can change
- `RunState.metadata`, `RunState.setTimes` — the times of files, read and set
- `RunState.report` — the state after an event
- the host whose operations work on a `RunState`
- `RunState.perform` — an action on a state
-/

namespace PatternRename

inductive Shown where
  | event (event : Event)
  | text (text : String)
  deriving DecidableEq, Repr

def Shown.render : Shown → String
  | .event e => e.consoleLine
  | .text t => t

/-- Which events are shown, and where they are written as well. -/
structure Logging where
  level : Level
  file : Option Location := none
  deriving DecidableEq, Repr

/-- What keeps a run from reading and setting the times of the files at some locations, such as the
rights of its user. A run does not change it. -/
structure TimeFaults where
  metadata : Location → Option Fault := fun _ => none
  modified : Location → Option Fault := fun _ => none
  setting : Location → Option Fault := fun _ => none

/-- What a run can change, and what keeps it from setting times. -/
structure RunState where
  files : FileTree
  times : Location → FileTimes := fun _ => ⟨0, none⟩
  timeFaults : TimeFaults := {}
  /-- There is none until logging is started. -/
  logging : Option Logging := none
  shown : Array Shown := #[]
  complaints : String := ""
  time : String := ""

namespace RunState

def withFiles (state : RunState) (files : FileTree) : RunState :=
  { state with files }

@[simp]
theorem files_withFiles (state : RunState) (files : FileTree) :
    (state.withFiles files).files = files := rfl

/-- What there is to know of a file or directory. -/
def metadata (state : RunState) (path : Path) : Except Fault Metadata := do
  let place ← state.files.locate path
  if state.files.get? place = none then throw .missing
  if let some fault := state.timeFaults.metadata place then throw fault
  let modified :=
    match state.timeFaults.modified place with
    | some fault => .error fault
    | none => .ok (state.times place).modified
  return ⟨modified, (state.times place).accessed⟩

/-- The state with the times of a location set. A time that is not given stays. -/
def giveTimes (state : RunState) (place : Location) (given : FileTimes) : RunState :=
  { state with times := fun spot =>
      if spot = place then ⟨given.modified, given.accessed <|> (state.times place).accessed⟩
      else state.times spot }

/-- Sets the times of a file, which is opened for writing. -/
def setTimes (state : RunState) (path : Path) (given : FileTimes) : Option Fault × RunState :=
  match state.files.locate path with
  | .error fault => (some fault, state)
  | .ok place =>
    match state.files.get? place with
    | none => (some .missing, state)
    | some .directory => (some .isDirectory, state)
    | some (.file _) =>
      match state.timeFaults.setting place with
      | some fault => (some fault, state)
      | none => (none, state.giveTimes place given)

/-- The state after an event. Events that come before logging is started, or that are more detailed
than its level, are dropped. -/
def report (state : RunState) (event : Event) : RunState :=
  match state.logging with
  | none => state
  | some logging =>
    if logging.level.isShown event.level then
      let state := { state with shown := state.shown.push (.event event) }
      match logging.file with
      | none => state
      | some place =>
        state.withFiles
          (state.files.appendAt place (Text.Utf8.octets (event.fileLine state.time)))
    else state

/-- Without a log file, an event leaves the files as they are. -/
theorem files_report {state : RunState} (event : Event)
    (no_file : ∀ logging, state.logging = some logging → logging.file = none) :
    (state.report event).files = state.files := by
  unfold report
  split
  · rfl
  · rename_i logging started
    simp only [no_file logging started]
    split <;> rfl

/-- The state after logging is started, and the fault that prevents it if there is one. -/
def startLogging (state : RunState) (level : Level) : Option Path → Option Fault × RunState
  | none => (none, { state with logging := some ⟨level, none⟩ })
  | some path =>
    match state.files.openForAppending path with
    | .error fault => (some fault, state)
    | .ok (files, place) =>
      (none, { state with files, logging := some ⟨level, some place⟩ })

def print (state : RunState) (text : String) : RunState :=
  if text.isEmpty then state else { state with shown := state.shown.push (.text text) }

def console (state : RunState) : String :=
  String.join (state.shown.toList.map Shown.render)

end RunState

def changeFiles (change : FileTree → FileTree × Option Fault) : StateM RunState (Option Fault) :=
  fun state =>
    let (files, fault) := change state.files
    (fault, state.withFiles files)

instance : Host (StateM RunState) where
  look path := fun state => (state.files.kind? path, state)
  list path := fun state => (state.files.list path, state)
  read path := fun state => (state.files.read path, state)
  makeDirectories path := changeFiles (·.makeDirectories path)
  copyFile source target := changeFiles (·.copyFile source target)
  metadata path := fun state => (state.metadata path, state)
  setTimes path given := fun state => state.setTimes path given
  startLogging level path := fun state => state.startLogging level path
  report event := fun state => ((), state.report event)
  print text := fun state => ((), state.print text)
  complain text := fun state => ((), { state with complaints := state.complaints ++ text })

theorem reportAll_run (events : List Event) (state : RunState) :
    reportAll (m := StateM RunState) events state = ((), events.foldl RunState.report state) := by
  induction events generalizing state with
  | nil => rfl
  | cons event rest ih => exact ih (state.report event)

/-- The outcome of an action on a state, and the state after it. -/
def RunState.perform {α : Type} (state : RunState)
    (action : ExceptT Failure (StateM RunState) α) : Except Failure α × RunState :=
  action.run state

end PatternRename
