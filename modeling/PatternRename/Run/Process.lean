import PatternRename.Listing
import PatternRename.Run.Copy
import PatternRename.Settings.Basic

/-!
# Runs

A run lists the input directory, makes new names for its files and writes a copy of each file
under its new name to the output directory. Names are made for the whole collection before the
first copy is written, so that a collection that cannot be named leaves all files as they are.

## Main definitions

- `listDirectory` — the files of a directory
- `Task.copyOf` — the copy of a file under its new name
- `copyAll` — the copies of a collection
- `process` — a whole run
-/

namespace PatternRename

variable {m : Type → Type} [Monad m] [Host m]

/-- The files of a directory that a run takes into account. -/
def listDirectory (directory : Path) : ExceptT Failure m Listing := do
  Host.report (m := m) (.listing directory)
  if (← Host.look (m := m) directory) ≠ some .directory then
    throw (.directoryNotFound directory)
  match ← Host.list (m := m) directory with
  | .error fault => throw (.directoryUnreadable directory fault)
  | .ok entries =>
    let listing := Listing.ofEntries directory entries
    reportAll (m := m) listing.events
    return listing

def Task.copyOf (task : Task) (file : RenamedFile) : PlannedCopy where
  source := task.inputDirectory.join (.ofText file.source)
  target := task.outputDirectory.join (.ofText file.target)

/-- A summary of a report: who is left out, and how many names came more than once. -/
def Summary.ofReport (summary : Summary) (report : Report) : Summary :=
  let skipped := report.leftOut.foldl (fun summary file =>
    summary.skip file.filename (match file.failure with | .noMatch .. => true | _ => false)) summary
  (collisions report.renamed).foldl (fun summary _ => summary.count .collision) skipped

def collisionEvents (files : List RenamedFile) : List Event :=
  (collisions files).map fun c => .collision c.previous c.current c.target

def Summary.afterCopy (summary : Summary) (copy : PlannedCopy) :
    Except Failure Unit → Summary
  | .error _ => summary.count .error
  | .ok () => if summary.dryRun then summary.plan copy else summary.count .copied

/-- Writes the copy of a file. A copy that fails is reported and counted. -/
def copyOne (task : Task) (summary : Summary) (file : RenamedFile) : m Summary := do
  let copy := task.copyOf file
  Host.report (.fileRenamed file.source file.target)
  let outcome ← copyRenamed copy summary.dryRun
  if let .error failure := outcome then
    Host.report (.copyFailed copy.source failure)
  return (summary.count .renamed).afterCopy copy outcome

def copyAll (task : Task) (summary : Summary) : List RenamedFile → m Summary
  | [] => pure summary
  | file :: rest => do
    let summary ← copyOne task summary file
    copyAll task summary rest

def renameAll (renamer : Renamer) (names : List String) : ExceptT Failure m Report := do
  let attempts := renamer.attempts names
  let outcome := Renamer.settle attempts
  reportAll (m := m) (renamer.events attempts outcome)
  outcome

/-- The task of a run, once its directories have been looked at. -/
def prepare (settings : Settings) : ExceptT Failure m Task := do
  reportAll (m := m) settings.patternEvents
  let task ← settings.task
  let input ← Host.look (m := m) task.inputDirectory
  let output ← Host.look (m := m) task.outputDirectory
  task.checkPlaces input output
  Host.report (m := m) (.inputExpression task.renamer.input.expression)
  return task

def process (settings : Settings) (dryRun : Bool) : ExceptT Failure m Summary := do
  let task ← prepare settings
  let listing ← listDirectory task.inputDirectory
  let summary := ({ dryRun } : Summary).found listing.files.length
  if listing.files.isEmpty then
    Host.report (m := m) (.noFiles task.inputDirectory)
    return summary
  Host.report (m := m) (.renamingBegins listing.files.length dryRun)
  let report ← renameAll task.renamer listing.names
  reportAll (m := m) (collisionEvents report.renamed)
  let summary ← copyAll (m := m) task (summary.ofReport report) report.renamed
  Host.report (m := m) (.renamingEnds summary.tally)
  Host.print (m := m) summary.planText
  return summary

end PatternRename
