import PatternRename.FileTree.Resolve

/-!
# Changes to a file tree

Directories are made on the way along a path, files are written and extended, and a file is
copied over another. An operation that fails partway keeps what it made before.

## Main definitions

- `FileTree.makeDirectories` — the directories along a path
- `FileTree.copyFile` — a copy of a file, over whatever file was there
- `FileTree.writeFile`, `FileTree.appendAt`, `FileTree.openForAppending` — files written directly
-/

namespace PatternRename

namespace FileTree

/-- Takes steps and makes the directories that are missing. The answer is the tree with the
directories made so far, and the fault that stopped it if there is one. -/
def makeAlong (tree : FileTree) (place : Location) : List Path.Step → FileTree × Option Fault
  | [] => (tree, none)
  | s :: rest =>
    match tree.step place s, s with
    | .ok next, _ =>
      if rest.isEmpty && (tree.get? next).map Entry.kind = some .file then
        (tree, some .occupied)
      else makeAlong tree next rest
    | .error .missing, .down name =>
      if tree.get? place = some .directory then
        makeAlong (tree.put (place ++ [name]) .directory) (place ++ [name]) rest
      else (tree, some .missing)
    | .error fault, _ => (tree, some fault)

/-- Makes the directories that are missing along a path. The empty path asks for nothing. -/
def makeDirectories (tree : FileTree) (p : Path) : FileTree × Option Fault :=
  match pathFault? p with
  | some fault => (tree, some fault)
  | none => tree.makeAlong (tree.origin p) p.steps

/-- Copies the file at one path over the file at another. The target is emptied before the source
is read, so a file copied onto itself loses its content. A copy is made as a whole or not at all:
permissions, which a copy takes along, are not in the tree, and no copy breaks off in the middle. -/
def copyFile (tree : FileTree) (source target : Path) : FileTree × Option Fault :=
  match tree.locate source with
  | .error fault => (tree, some fault)
  | .ok origin =>
    match tree.get? origin with
    | none => (tree, some .missing)
    | some .directory => (tree, some .isDirectory)
    | some (.file content) =>
      match tree.locateForWriting target with
      | .error fault => (tree, some fault)
      | .ok destination =>
        (tree.put destination (.file (if destination = origin then [] else content)), none)

def writeFile (tree : FileTree) (p : Path) (content : List UInt8) : FileTree × Option Fault :=
  match tree.locateForWriting p with
  | .ok place => (tree.put place (.file content), none)
  | .error fault => (tree, some fault)

/-- Makes sure that there is a file at a path, and answers with its location. -/
def openForAppending (tree : FileTree) (p : Path) : Except Fault (FileTree × Location) :=
  match tree.locateForWriting p with
  | .ok place =>
    match tree.get? place with
    | some _ => .ok (tree, place)
    | none => .ok (tree.put place (.file []), place)
  | .error fault => .error fault

/-- Adds octets at the end of the file at a location. -/
def appendAt (tree : FileTree) (place : Location) (more : List UInt8) : FileTree :=
  match tree.get? place with
  | some (.file content) => tree.put place (.file (content ++ more))
  | _ => tree

end FileTree

end PatternRename
