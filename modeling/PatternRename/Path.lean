import PatternRename.Text.Utf8

/-!
# Paths

A path is a run of octets in which slashes part the steps to a place. This file joins and takes
apart paths as they are written; where a path leads is a matter of the file tree.

## Main definitions

- `Path.join` — a path below another
- `Path.parent?`, `Path.fileName?` — a path without its last component, and that component
- `Path.steps` — the steps that lead from a directory to the place that a path names
-/

namespace PatternRename

/-- The name of a file or a directory within its directory. -/
abbrev Name := List UInt8

/-- A path as it is written. -/
structure Path where
  octets : List UInt8
  deriving DecidableEq, Repr, Inhabited

namespace Path

def slash : UInt8 := 0x2F

def hereName : Name := [0x2E]

def aboveName : Name := [0x2E, 0x2E]

def ofText (text : String) : Path :=
  ⟨Text.Utf8.octets text⟩

/-- The text of a path that is UTF-8. -/
def text? (p : Path) : Option String :=
  Text.Utf8.decode? p.octets

def display (p : Path) : String :=
  Text.Utf8.decodeLossy p.octets

def isAbsolute (p : Path) : Bool :=
  p.octets.head? == some slash

def endsInSlash (p : Path) : Bool :=
  p.octets.getLast? == some slash

/-- The runs of octets between the slashes of a path. -/
def pieces (p : Path) : List Name :=
  p.octets.splitOn slash

def ofPieces (names : List Name) : Path :=
  ⟨List.intercalate [slash] names⟩

/-- `p.join q` is the path `q` taken below `p`. An absolute `q` stands for itself, and an empty
`q` leaves `p` with a slash behind it. -/
def join (p q : Path) : Path :=
  if q.isAbsolute || p.octets.isEmpty then q
  else if p.endsInSlash then ⟨p.octets ++ q.octets⟩
  else ⟨p.octets ++ slash :: q.octets⟩

/-- Whether a piece of a path leads nowhere: it is empty or stands for the directory itself. -/
def isIdle (piece : Name) : Bool :=
  piece.isEmpty || piece == hereName

def dropIdle (names : List Name) : List Name :=
  (names.reverse.dropWhile isIdle).reverse

/-- The last component of a path, unless it leads upwards or there is none. -/
def fileName? (p : Path) : Option Name :=
  match (dropIdle p.pieces).getLast? with
  | some name => if name = aboveName then none else some name
  | none => none

/-- A path without its last component. The root and the empty path have no parent, and the parent
of a single name is the empty path. -/
def parent? (p : Path) : Option Path :=
  match p.pieces with
  | [] => none
  | start :: rest =>
    match dropIdle rest with
    | [] => if start.isEmpty then none else some ⟨[]⟩
    | names =>
      match dropIdle names.dropLast with
      | [] => some (if start.isEmpty then ⟨[slash]⟩ else ⟨start⟩)
      | above => some (ofPieces (start :: above))

/-- One step on the way to a place. -/
inductive Step where
  | stay
  | up
  | down (name : Name)
  deriving DecidableEq, Repr

def Step.ofPiece (piece : Name) : Step :=
  if piece = hereName then .stay else if piece = aboveName then .up else .down piece

def namedSteps (p : Path) : List Step :=
  (p.pieces.filter (!·.isEmpty)).map Step.ofPiece

/-- The steps of a path. A slash at the end asks for a directory, as a step to the directory
itself does. -/
def steps (p : Path) : List Step :=
  p.namedSteps ++ (if p.endsInSlash then [.stay] else [])

/-- The path of a home directory in the place of a leading tilde that stands alone or before a
slash. -/
def expandHome (home text : String) : Path :=
  match text.toList with
  | ['~'] => ofText home
  | '~' :: '/' :: rest => ofText (home ++ String.ofList ('/' :: rest))
  | _ => ofText text

end Path

end PatternRename
