import PatternRename.CommandLine.Options
import PatternRename.Run.Process
import PatternRename.Settings.Reader

/-!
# The program

A command line is turned into a run: the log file is found and opened, the settings are read, and
the outcome becomes an exit code.

## Main definitions

- `Surroundings` — the directories of the user
- `logPath` — the path of the log file
- `readSettings`, `gatherSettings` — the settings of a run
- `runOptions` — a run for the options of a command line
- `runArguments` — the whole program
-/

namespace PatternRename

/-- The directories of the user. -/
structure Surroundings where
  home : String
  configDirectory : Path
  deriving Repr

/-- The directory that this program keeps its files in. -/
def Surroundings.ownDirectory (surroundings : Surroundings) : Path :=
  surroundings.configDirectory.join (.ofText "file_rename")

variable {m : Type → Type} [Monad m] [Host m] [Readers]

/-- Makes the directory that this program keeps its files in, unless something is there. -/
def makeOwnDirectory (directory : Path) : ExceptT Failure m Unit := do
  if (← Host.look (m := m) directory).isNone then
    if let some fault ← Host.makeDirectories (m := m) directory then
      throw (.fileOperation "create directory" directory fault)

/-- The path of the log file: the given one, or one in the directory of the program. -/
def logPath (surroundings : Surroundings) (options : Options) : ExceptT Failure m Path := do
  let name := Path.ofText options.logFile
  if options.logLocally then return name
  makeOwnDirectory surroundings.ownDirectory
  return surroundings.ownDirectory.join name

/-- Starts logging. The empty path stands for no log file. -/
def startLog (verbosity : Verbosity) (path : Path) : ExceptT Failure m Unit := do
  let file := if path.octets.isEmpty then none else some path
  if let some fault ← Host.startLogging (m := m) verbosity.level file then
    throw (.system fault)
  Host.report (m := m) (.loggerReady verbosity)

def readSettings (home : String) (path : Path) : ExceptT Failure m Settings := do
  match ← Host.read (m := m) path with
  | .error fault => throw (.settingsUnreadable path fault)
  | .ok content =>
    let settings ← Settings.ofFile home path content
    Host.report (m := m) (.settingsLoaded path)
    return settings

/-- The settings of a run: those in the settings file, under those on the command line. -/
def gatherSettings (home : String) (options : Options) : ExceptT Failure m Settings := do
  let base ← match options.settingsFile with
    | none => pure {}
    | some file => readSettings home (Readers.expandHome home file)
  return base.merge (options.settings home)

def runOptions (surroundings : Surroundings) (options : Options) : ExceptT Failure m Unit := do
  let path ← logPath surroundings options
  startLog options.verbosity path
  let settings ← gatherSettings surroundings.home options
  let summary ← process settings options.dryRun
  Host.report (m := m) (.runEnds summary.tally)

/-- The exit code for a run that cannot go on. Asking for too wide a padding breaks the program
off. -/
def Failure.exitCode : Failure → UInt32
  | .paddingTooWide => 101
  | _ => 1

def showFailure (failure : Failure) : m Unit := do
  if failure ≠ .paddingTooWide then Host.report (.runFails failure)
  Host.complain s!"Error: {failure.chain}\n"

def answerRefusal : Refusal → m UInt32
  | .help => do Host.print usage; return 0
  | .version => do Host.print versionText; return 0
  | .unknownArgument => do Host.complain ("error: unexpected argument\n\n" ++ usage); return 2
  | .missingValue => do Host.complain ("error: a value is required\n\n" ++ usage); return 2
  | .unwantedValue => do Host.complain ("error: unexpected value\n\n" ++ usage); return 2
  | .repeatedSwitch => do
    Host.complain ("error: an argument cannot be used multiple times\n\n" ++ usage)
    return 2

/-- The whole program: runs the arguments of a command line and answers with the exit code. -/
def runArguments (surroundings : Surroundings) (arguments : List String) : m UInt32 := do
  match Readers.readArguments arguments with
  | .error refusal => answerRefusal refusal
  | .ok options =>
    match ← (runOptions surroundings options).run with
    | .ok () => return 0
    | .error failure =>
      showFailure failure
      return failure.exitCode

end PatternRename
