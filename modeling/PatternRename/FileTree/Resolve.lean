import PatternRename.FileTree.Basic

/-!
# Where a path leads

The steps of a path are taken one after the other, from the root or from the current directory.
Each step starts from a directory; a name must be there and may not be too long.

## Main definitions

- `FileTree.step` — one step
- `FileTree.locate` — the location of an entry that is there
- `FileTree.locateForWriting` — the location that a file written to a path would have
- `FileTree.kind?`, `FileTree.list`, `FileTree.read` — what is there
-/

namespace PatternRename

namespace FileTree

def maxName : Nat := 255

/-- A path with this many octets is too long. -/
def maxPath : Nat := 4096

/-- One step from a location, which must be a directory. -/
def step (tree : FileTree) (place : Location) (s : Path.Step) : Except Fault Location :=
  match tree.get? place with
  | none => .error .missing
  | some (.file _) => .error .notDirectory
  | some .directory =>
    match s with
    | .stay => .ok place
    | .up => .ok place.dropLast
    | .down name =>
      if maxName < name.length then .error .nameTooLong
      else if (tree.get? (place ++ [name])).isSome then .ok (place ++ [name])
      else .error .missing

def walk (tree : FileTree) (place : Location) : List Path.Step → Except Fault Location
  | [] => .ok place
  | s :: rest =>
    match tree.step place s with
    | .ok next => walk tree next rest
    | .error fault => .error fault

def origin (tree : FileTree) (p : Path) : Location :=
  if p.isAbsolute then [] else tree.here

/-- What is wrong with a path that no tree could hold. -/
def pathFault? (p : Path) : Option Fault :=
  if p.octets.contains 0 then some .nulInPath
  else if maxPath ≤ p.octets.length then some .nameTooLong
  else none

/-- The location of the entry that a path leads to. The empty path leads nowhere. -/
def locate (tree : FileTree) (p : Path) : Except Fault Location :=
  match pathFault? p with
  | some fault => .error fault
  | none => if p.octets.isEmpty then .error .missing else tree.walk (tree.origin p) p.steps

/-- The kind of entry that a path leads to, if it leads anywhere. -/
def kind? (tree : FileTree) (p : Path) : Option EntryKind :=
  match tree.locate p with
  | .ok place => (tree.get? place).map Entry.kind
  | .error _ => none

/-- The location that a file written to a path would have: its directory is there, and the
location itself is free or holds a file. A slash at the end asks for a directory. -/
def locateForWriting (tree : FileTree) (p : Path) : Except Fault Location :=
  match pathFault? p with
  | some fault => .error fault
  | none =>
    match p.namedSteps.getLast? with
    | none => .error (if p.octets.isEmpty then .missing else .isDirectory)
    | some (.down name) =>
      match tree.walk (tree.origin p) p.namedSteps.dropLast with
      | .error fault => .error fault
      | .ok parent =>
        if tree.get? parent ≠ some .directory then .error .notDirectory
        else if p.endsInSlash then .error .isDirectory
        else if maxName < name.length then .error .nameTooLong
        else if tree.get? (parent ++ [name]) = some .directory then .error .isDirectory
        else .ok (parent ++ [name])
    | some _ =>
      match tree.walk (tree.origin p) p.namedSteps with
      | .ok _ => .error .isDirectory
      | .error fault => .error fault

def list (tree : FileTree) (p : Path) : Except Fault (List (Name × EntryKind)) :=
  match tree.locate p with
  | .error fault => .error fault
  | .ok place =>
    match tree.get? place with
    | some .directory => .ok (tree.children place)
    | some (.file _) => .error .notDirectory
    | none => .error .missing

def read (tree : FileTree) (p : Path) : Except Fault (List UInt8) :=
  match tree.locate p with
  | .error fault => .error fault
  | .ok place =>
    match tree.get? place with
    | some (.file content) => .ok content
    | some .directory => .error .isDirectory
    | none => .error .missing

end FileTree

end PatternRename
