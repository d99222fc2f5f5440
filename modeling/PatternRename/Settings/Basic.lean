import PatternRename.FileTree.Basic
import PatternRename.Renaming.Renamer

/-!
# Settings and tasks

The four options that say what a run does are its settings. Each may be left out, so that a settings
file and the command line can each give a part of them. A task is what a run needs to know: both
directories, and two patterns that go together. It comes from settings in which nothing is missing.

## Main definitions

- `Settings`, `Settings.merge` — the options that are given, and settings over other settings
- `Task`, `Settings.task` — the task that settings ask for
- `Settings.patternEvents` — what is reported while its patterns are put together
- `Task.checkPlaces` — whether there are directories where the task needs them
-/

namespace PatternRename

/-- The options that are given for a run. -/
structure Settings where
  inputDirectory : Option Path := none
  outputDirectory : Option Path := none
  inputPattern : Option String := none
  outputPattern : Option String := none
  deriving DecidableEq, Repr

/-- Settings over other settings: what `top` gives counts, and what it leaves out is taken from
`base`. -/
def Settings.merge (base top : Settings) : Settings where
  inputDirectory := top.inputDirectory <|> base.inputDirectory
  outputDirectory := top.outputDirectory <|> base.outputDirectory
  inputPattern := top.inputPattern <|> base.inputPattern
  outputPattern := top.outputPattern <|> base.outputPattern

/-- What a run is to do. -/
structure Task where
  inputDirectory : Path
  outputDirectory : Path
  inputPattern : String
  outputPattern : String
  renamer : Renamer

namespace Settings

def require {α : Type} (option : RequiredOption) : Option α → Except Failure α
  | some value => .ok value
  | none => .error (.optionMissing option)

/-- The task that settings ask for. Of several options that are not given the first one is named,
and the patterns are looked at when all options are there. -/
def task (settings : Settings) : Except Failure Task := do
  let inputDirectory ← require .inputDirectory settings.inputDirectory
  let outputDirectory ← require .outputDirectory settings.outputDirectory
  let inputPattern ← require .inputPattern settings.inputPattern
  let outputPattern ← require .outputPattern settings.outputPattern
  let renamer ← (Renamer.ofTexts inputPattern outputPattern).mapError .patternsUnusable
  return ⟨inputDirectory, outputDirectory, inputPattern, outputPattern, renamer⟩

def patternEvents (settings : Settings) : List Event :=
  match settings with
  | ⟨some _, some _, some input, some output⟩ =>
    match Pattern.parse input, Pattern.parse output with
    | .ok p, .ok q => Renamer.setupEvents p q
    | _, _ => []
  | _ => []

end Settings

/-- Checks what is at the two directories of a task: the input directory must be there, and at the
output directory there may be no file. -/
def Task.checkPlaces (task : Task) (input output : Option EntryKind) : Except Failure Unit :=
  match input with
  | none => .error (.inputMissing task.inputDirectory)
  | some .file => .error (.inputNotDirectory task.inputDirectory)
  | some .directory =>
    if output = some .file then .error (.outputNotDirectory task.outputDirectory) else .ok ()

end PatternRename
