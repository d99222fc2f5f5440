import PatternRename.Event
import PatternRename.Path

/-!
# Summaries of a run

What a run did, or would do if it were not a dry run.

## Main definitions

- `PlannedCopy`, `Summary` — what became of the files
- `Summary.plan`, `Summary.skip`, `Summary.count` — one more thing done
- `Summary.planText` — how the plan of a dry run is shown
-/

namespace PatternRename

/-- A copy that a run would write if it were not a dry run. -/
structure PlannedCopy where
  source : Path
  target : Path
  deriving DecidableEq, Repr

/-- What a run did. -/
structure Summary where
  dryRun : Bool
  tally : Tally := {}
  planned : List PlannedCopy := []
  skipped : List String := []
  deriving DecidableEq, Repr

/-- Something that happens to one file and is counted. -/
inductive Tally.Item where
  | renamed
  | copied
  | collision
  | error
  deriving DecidableEq, Repr

def Tally.count (tally : Tally) : Tally.Item → Tally
  | .renamed => { tally with renamed := tally.renamed + 1 }
  | .copied => { tally with copied := tally.copied + 1 }
  | .collision => { tally with collisions := tally.collisions + 1 }
  | .error => { tally with errors := tally.errors + 1 }

namespace Summary

def plan (summary : Summary) (copy : PlannedCopy) : Summary :=
  { summary with planned := summary.planned ++ [copy] }

/-- A summary with one more file left out, either because its name does not fit or for another
reason. -/
def skip (summary : Summary) (filename : String) (unmatched : Bool) : Summary :=
  let tally := summary.tally
  { summary with
    skipped := summary.skipped ++ [filename]
    tally := if unmatched then { tally with unmatched := tally.unmatched + 1 }
      else tally.count .error }

def found (summary : Summary) (files : Nat) : Summary :=
  { summary with tally := { summary.tally with scanned := files } }

def count (summary : Summary) (item : Tally.Item) : Summary :=
  { summary with tally := summary.tally.count item }

def copyLines (planned : List PlannedCopy) : List String :=
  planned.flatMap fun copy =>
    [s!"  From: {copy.source.display}", s!"  To:   {copy.target.display}"]

def skippedLines (skipped : List String) : List String :=
  if skipped.isEmpty then []
  else ["", "Files to be skipped:", "-------------------"] ++ skipped.map ("  " ++ ·)

/-- The lines that show what a dry run would do. -/
def planLines (summary : Summary) : List String :=
  ["", "Detailed plan of operations:", "===========================",
    "", "Files to be copied:", "------------------"] ++
  copyLines summary.planned ++
  skippedLines summary.skipped ++
  ["", "Summary:", "--------",
    s!"  Files to be copied:  {summary.planned.length}",
    s!"  Files to be skipped: {summary.skipped.length}",
    s!"  Name collisions:     {summary.tally.collisions}",
    "", "Run without --dry flag to execute these operations."]

/-- How the plan of a dry run is shown. A plan without copies is not shown. -/
def planText (summary : Summary) : String :=
  if summary.dryRun && !summary.planned.isEmpty then
    String.join (summary.planLines.map (· ++ "\n"))
  else ""

end Summary

end PatternRename
