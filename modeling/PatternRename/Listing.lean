import PatternRename.Event
import PatternRename.FileTree.Resolve

/-!
# Listings

The files of a directory that a renaming takes into account: those whose name is text and does not
begin with a dot, in the order of the octets of their names. A file whose path is too long to be
looked at is passed over.

## Main definitions

- `ListedFile`, `ListedFile.ofPath` — a file with its name as text
- `Listing`, `Listing.ofEntries` — the files of a directory
- `Listing.events` — what is reported about them
-/

namespace PatternRename

/-- A file that was found, with its name as text. -/
structure ListedFile where
  path : Path
  name : String
  deriving DecidableEq, Repr

/-- The file at a path whose last component is text. -/
def ListedFile.ofPath (path : Path) : Except Failure ListedFile :=
  match path.fileName? with
  | none => .error (.fileNameMissing path)
  | some name =>
    match Text.Utf8.decode? name with
    | none => .error (.fileNameNotText path)
    | some text => .ok ⟨path, text⟩

def isHiddenName (name : Name) : Bool :=
  match Text.Utf8.decode? name with
  | some text => text.toList.head? == some '.'
  | none => false

/-- Whether one file comes before another, by the octets of their names. -/
def ListedFile.comesBefore (a b : ListedFile) : Bool :=
  FileTree.octetsLe (Text.Utf8.octets a.name) (Text.Utf8.octets b.name)

/-- The files of a directory, and the files whose name is not text. -/
structure Listing where
  files : List ListedFile
  leftOut : List Failure
  deriving DecidableEq, Repr

namespace Listing

/-- The paths of the files that are not hidden among the entries of a directory, where they can be
looked at. -/
def candidates (directory : Path) (entries : List (Name × EntryKind)) : List Path :=
  let paths := (entries.filter fun (name, kind) => kind = .file && !isHiddenName name).map
    fun (name, _) => directory.join ⟨name⟩
  paths.filter fun path => (FileTree.pathFault? path).isNone

def failure? : Except Failure ListedFile → Option Failure
  | .error failure => some failure
  | .ok _ => none

def ofEntries (directory : Path) (entries : List (Name × EntryKind)) : Listing :=
  let found := (candidates directory entries).map ListedFile.ofPath
  { files := (found.filterMap Except.toOption).mergeSort ListedFile.comesBefore
    leftOut := found.filterMap failure? }

def names (listing : Listing) : List String :=
  listing.files.map ListedFile.name

def events (listing : Listing) : List Event :=
  listing.leftOut.map .listingSkips ++ [.listed listing.files.length]

end Listing

end PatternRename
