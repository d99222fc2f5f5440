import PatternRename.Run.Host
import PatternRename.Run.Summary

/-!
# Copies under new names

A file is copied to its new path. The directory of the new path is made if it is missing, and a
file that is there already is overwritten. The copy keeps the times of the file; if it cannot be
given them the copy counts as failed, though it is written. In a dry run nothing is written.

## Main definitions

- `keepTimes` — the times of a file for its copy
- `writeCopy` — one copy
- `copyRenamed` — one copy, or a note of it in a dry run
-/

namespace PatternRename

variable {m : Type → Type} [Monad m] [Host m]

def makeParent (target : Path) : m (Except Failure Unit) :=
  match target.parent? with
  | none => pure (.ok ())
  | some parent => do
    match ← Host.makeDirectories parent with
    | some fault => return .error (.fileOperation "create directory" parent fault)
    | none => return .ok ()

/-- Gives the copy of a file the times of the file. -/
def keepTimes (copy : PlannedCopy) : m (Except Failure Unit) := do
  match ← Host.metadata copy.source with
  | .error fault => return .error (.fileOperation "read timestamps of" copy.source fault)
  | .ok metadata =>
    match metadata.modified with
    | .error fault => return .error (.fileOperation "read timestamps of" copy.source fault)
    | .ok modified =>
      match ← Host.setTimes copy.target ⟨modified, metadata.accessed⟩ with
      | some fault => return .error (.fileOperation "set timestamps of" copy.target fault)
      | none => return .ok ()

/-- Copies a file to a path. What was made and written stays even if a later step fails. -/
def writeCopy (copy : PlannedCopy) : m (Except Failure Unit) := do
  match ← makeParent copy.target with
  | .error failure => return .error failure
  | .ok () =>
    Host.report (.copying copy.source copy.target)
    match ← Host.copyFile copy.source copy.target with
    | some fault => return .error (.fileOperation "copy" copy.source fault)
    | none => keepTimes copy

def copyRenamed (copy : PlannedCopy) (dryRun : Bool) : m (Except Failure Unit) := do
  if dryRun then
    Host.report (.copyPlanned copy.source copy.target)
    return .ok ()
  else writeCopy copy

end PatternRename
