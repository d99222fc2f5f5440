import PatternRename.Failure

/-!
# Reports of a renaming

What became of the names of a collection: the files that got a new name and the files that were
left out, each in the order in which the names came.

## Main definitions

- `RenamedFile`, `LeftOut`, `Report` — the outcome
- `Report.target?` — the new name of a file
- `Collision`, `collisions` — files that got a name that an earlier file had got
-/

namespace PatternRename

structure RenamedFile where
  source : String
  target : String
  deriving DecidableEq, Repr

structure LeftOut where
  filename : String
  failure : Failure
  deriving DecidableEq, Repr

/-- What became of the names of a collection. -/
structure Report where
  renamed : List RenamedFile
  leftOut : List LeftOut
  deriving DecidableEq, Repr

namespace Report

/-- The new name of a file, by its first mention. -/
def target? (report : Report) (source : String) : Option String :=
  (report.renamed.find? (·.source == source)).map RenamedFile.target

def isComplete (report : Report) : Bool :=
  report.leftOut.isEmpty

end Report

structure Collision where
  previous : String
  current : String
  target : String
  deriving DecidableEq, Repr

/-- The collisions among files, when `earlier` files have come before, the latest first. -/
def collisionsFrom (earlier : List RenamedFile) : List RenamedFile → List Collision
  | [] => []
  | file :: rest =>
    let later := collisionsFrom (file :: earlier) rest
    match earlier.find? (·.target == file.target) with
    | some previous => ⟨previous.source, file.source, file.target⟩ :: later
    | none => later

/-- The files that got a name that an earlier file had got, each with the latest such file. -/
def collisions (files : List RenamedFile) : List Collision :=
  collisionsFrom [] files

end PatternRename
