import PatternRename.Event
import PatternRename.FileTree.Basic

/-!
# The host of a run

A run reads and writes files, reports events and shows text. What it needs of the system for that
is gathered here.

## Main definitions

- `FileTimes`, `Metadata` — the times of a file, and what a system tells of them
- `Host` — the operations of a system that a run needs
- `reportAll` — several events, one after the other

## Design notes

The steps of a run are written once, for every host. On one host they change the files of a
machine; on another they are a function of a file tree, about which facts can be proved.
-/

namespace PatternRename

/-- When a file was changed and when it was read, in nanoseconds since 1970. Not every system knows
when a file was read. -/
structure FileTimes where
  modified : Int
  accessed : Option Int
  deriving DecidableEq, Repr

/-- What a system tells of a file, apart from its content. -/
structure Metadata where
  modified : Except Fault Int
  accessed : Option Int

/-- The operations of a system that a run needs. -/
class Host (m : Type → Type) where
  look : Path → m (Option EntryKind)
  /-- The names directly inside a directory, in any order. -/
  list : Path → m (Except Fault (List (Name × EntryKind)))
  read : Path → m (Except Fault (List UInt8))
  /-- Makes the directories that are missing along a path. -/
  makeDirectories : Path → m (Option Fault)
  /-- Copies the file at the first path over whatever file is at the second. -/
  copyFile : Path → Path → m (Option Fault)
  metadata : Path → m (Except Fault Metadata)
  /-- Sets the times of a file. A time that is not given stays. -/
  setTimes : Path → FileTimes → m (Option Fault)
  /-- From now on, shows events up to a level, and writes them to the end of a file if one is
  given. -/
  startLogging : Level → Option Path → m (Option Fault)
  report : Event → m Unit
  print : String → m Unit
  complain : String → m Unit

def reportAll {m : Type → Type} [Monad m] [Host m] : List Event → m Unit
  | [] => pure ()
  | event :: rest => do
    Host.report event
    reportAll rest

end PatternRename
