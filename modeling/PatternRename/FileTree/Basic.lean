import PatternRename.Path

/-!
# File trees

A file tree says what is at each location below the root, and which location is the current
directory. It is a finite table; the root itself is always a directory and is not in the table. An
operation on files that fails has a fault, with the words that the system has for it.

## Main definitions

- `Fault`, `Fault.message` — why an operation on files failed, and the words for it
- `Location` — the names on the way from the root
- `Entry`, `EntryKind` — what is at a location
- `FileTree.get?` — what a tree has at a location
- `FileTree.put` — the tree with an entry set
- `FileTree.children` — the entries directly inside a location
-/

namespace PatternRename

/-- Why an operation on files failed. -/
inductive Fault where
  | missing
  | occupied
  | notDirectory
  | isDirectory
  | nameTooLong
  | nulInPath
  | other (text : String)
  deriving DecidableEq, Repr

def Fault.message : Fault → String
  | .missing => "No such file or directory (os error 2)"
  | .occupied => "File exists (os error 17)"
  | .notDirectory => "Not a directory (os error 20)"
  | .isDirectory => "Is a directory (os error 21)"
  | .nameTooLong => "File name too long (os error 36)"
  | .nulInPath => "file name contained an unexpected NUL byte"
  | .other text => text

/-- The names on the way from the root to a place. -/
abbrev Location := List Name

inductive EntryKind where
  | file
  | directory
  deriving DecidableEq, Repr

/-- What is at a location: a file with its octets, or a directory. -/
inductive Entry where
  | file (content : List UInt8)
  | directory
  deriving DecidableEq, Repr

def Entry.kind : Entry → EntryKind
  | .file _ => .file
  | .directory => .directory

/-- Files and directories below a root, and the current directory. -/
structure FileTree where
  /-- What is at each location below the root. Only the first row of a location counts. -/
  rows : List (Location × Entry)
  here : Location
  deriving DecidableEq, Repr

namespace FileTree

def empty : FileTree := ⟨[], []⟩

def get? (tree : FileTree) (place : Location) : Option Entry :=
  if place = [] then some .directory else tree.rows.lookup place

/-- Rows with an entry set: the first row of the location changes, or a row is added. -/
def putRow (place : Location) (entry : Entry) : List (Location × Entry) → List (Location × Entry)
  | [] => [(place, entry)]
  | row :: rest => if row.1 = place then (place, entry) :: rest else row :: putRow place entry rest

def put (tree : FileTree) (place : Location) (entry : Entry) : FileTree :=
  { tree with rows := putRow place entry tree.rows }

theorem lookup_putRow_self (place : Location) (entry : Entry) (rows : List (Location × Entry)) :
    (putRow place entry rows).lookup place = some entry := by
  induction rows with
  | nil => simp [putRow]
  | cons row rest ih =>
    obtain ⟨spot, old⟩ := row
    by_cases h : spot = place
    · simp [putRow, h]
    · have hne : (place == spot) = false := by simpa using Ne.symm h
      simp [putRow, h, List.lookup_cons, hne, ih]

theorem lookup_putRow_of_ne {place other : Location} (h : other ≠ place) (entry : Entry)
    (rows : List (Location × Entry)) :
    (putRow place entry rows).lookup other = rows.lookup other := by
  have hne : (other == place) = false := by simpa using h
  induction rows with
  | nil => simp [putRow, List.lookup_cons, hne]
  | cons row rest ih =>
    obtain ⟨spot, old⟩ := row
    by_cases hrow : spot = place
    · simp [putRow, hrow, List.lookup_cons, hne]
    · simp [putRow, hrow, List.lookup_cons, ih]

theorem get?_put_self (tree : FileTree) {place : Location} (h : place ≠ []) (entry : Entry) :
    (tree.put place entry).get? place = some entry := by
  simp [get?, put, h, lookup_putRow_self]

theorem get?_put_of_ne (tree : FileTree) {place other : Location} (h : other ≠ place)
    (entry : Entry) : (tree.put place entry).get? other = tree.get? other := by
  simp [get?, put, lookup_putRow_of_ne h]

@[simp]
theorem here_put (tree : FileTree) (place : Location) (entry : Entry) :
    (tree.put place entry).here = tree.here := rfl

/-- The names directly inside a location, with the kinds of their entries. -/
def children (tree : FileTree) (place : Location) : List (Name × EntryKind) :=
  tree.rows.filterMap fun (spot, entry) =>
    match spot.getLast? with
    | some name => if spot.dropLast = place then some (name, entry.kind) else none
    | none => none

def octetsLe (a b : List UInt8) : Bool :=
  decide (a ≤ b)

/-- Everything below a location, sorted by name: the path from there, with a slash behind the
name of a directory, and the octets of a file. -/
def inventory (tree : FileTree) (place : Location) : List (List UInt8 × Option (List UInt8)) :=
  let rows := tree.rows.filterMap fun (spot, entry) =>
    if place.isPrefixOf spot && spot != place then
      let name := (Path.ofPieces (spot.drop place.length)).octets
      some (match entry with
        | .file content => (name, some content)
        | .directory => (name ++ [Path.slash], none))
    else none
  rows.mergeSort fun a b => octetsLe a.1 b.1

end FileTree

end PatternRename
