import PatternRename.Application
import PatternRename.Text.Instant
import Std.Time.DateTime.Timestamp

/-!
# The program on a machine

The host that works on the files, the clock and the streams of a machine, and the program that
runs there.

## Main definitions

- `Machine` — runs on a machine
- `main` — the program
-/

namespace PatternRename

/-- How logging was started on a machine. -/
structure OpenLog where
  level : Level
  file : Option IO.FS.Handle

/-- Runs on a machine. -/
abbrev Machine := StateT (Option OpenLog) IO

namespace Machine

def faultOf (error : IO.Error) : Fault :=
  match error with
  | .noFileOrDirectory .. => .missing
  | .alreadyExists .. => .occupied
  | .inappropriateType _ code _ => if code = 21 then .isDirectory else .notDirectory
  | other => .other other.toString

def fault? (action : IO Unit) : IO (Option Fault) := do
  try
    action
    return none
  catch error => return some (faultOf error)

def attempt {α : Type} (action : IO α) : IO (Except Fault α) := do
  try
    return .ok (← action)
  catch error => return .error (faultOf error)

def kindOf (metadata : IO.FS.Metadata) : EntryKind :=
  match metadata.type with
  | .dir => .directory
  | _ => .file

def look (path : Path) : IO (Option EntryKind) := do
  try
    let place ← IO.FS.realPath path.display
    return some (kindOf (← place.metadata))
  catch _ => return none

/-- The names directly inside a directory. What is neither a file nor a directory is left out. -/
def list (path : Path) : IO (List (Name × EntryKind)) := do
  let place ← IO.FS.realPath path.display
  let entries ← place.readDir
  let found ← entries.toList.mapM fun entry => do
    let name := Text.Utf8.octets entry.fileName
    try
      let metadata ← entry.path.metadata
      return match metadata.type with
        | .dir => some (name, .directory)
        | .file => some (name, .file)
        | _ => none
    catch _ => return none
  return found.filterMap id

/-- Copies a file. The target is emptied before the source is read. -/
def copyFile (source target : Path) : IO (Option Fault) := do
  match ← look source with
  | none => return some .missing
  | some .directory => return some .isDirectory
  | some .file =>
    fault? do
      let handle ← IO.FS.Handle.mk target.display .write
      handle.write (← IO.FS.readBinFile source.display)

def nanoseconds (time : IO.FS.SystemTime) : Int :=
  time.sec * 1000000000 + time.nsec.toNat

def metadata (path : Path) : IO Metadata := do
  let found ← (← IO.FS.realPath path.display).metadata
  return ⟨.ok (nanoseconds found.modified), some (nanoseconds found.accessed)⟩

/-- Opens a file for writing, as setting its times needs. The times stay as they are: there is no
operation on them in the library that this program is written with. -/
def setTimes (path : Path) (_given : FileTimes) : IO Unit :=
  IO.FS.withFile path.display .readWrite fun _ => pure ()

def now : IO String := do
  let time ← Std.Time.Timestamp.now
  return Text.instantText time.toSecondsSinceUnixEpoch.val.toNat

/-- Opens a log file and notes the level. -/
def startLogging (level : Level) (path : Option Path) : Machine (Option Fault) := do
  match path with
  | none =>
    set (some (⟨level, none⟩ : OpenLog))
    return none
  | some file =>
    match ← attempt (IO.FS.Handle.mk file.display .append) with
    | .error fault => return some fault
    | .ok handle =>
      set (some (⟨level, some handle⟩ : OpenLog))
      return none

def report (event : Event) : Machine Unit := do
  if let some log ← get then
    if log.level.isShown event.level then
      IO.print event.consoleLine
      if let some handle := log.file then
        handle.putStr (event.fileLine (← now))
        handle.flush

instance : Host Machine where
  look path := look path
  list path := attempt (list path)
  read path := attempt do return (← IO.FS.readBinFile path.display).toList
  makeDirectories path :=
    if path.octets.isEmpty then pure none else fault? (IO.FS.createDirAll path.display)
  copyFile source target := copyFile source target
  metadata path := attempt (metadata path)
  setTimes path given := fault? (setTimes path given)
  startLogging := startLogging
  report := report
  print text := IO.print text
  complain text := IO.eprint text

def surroundings : IO Surroundings := do
  let home := (← IO.getEnv "HOME").getD ""
  let own := Path.ofText ((← IO.getEnv "XDG_CONFIG_HOME").getD "")
  return ⟨home, if own.isAbsolute then own else (Path.ofText home).join (.ofText ".config")⟩

end Machine

end PatternRename

/-- Runs the program with the arguments of a command line. -/
def main (arguments : List String) : IO UInt32 := do
  let run : PatternRename.Machine UInt32 :=
    PatternRename.runArguments (← PatternRename.Machine.surroundings) arguments
  run.run' none
