import PatternRename.Pattern.Basic

/-!
# Names under construction

A new name is made of segments. A segment is text, or a value whose number is known only when
the whole collection has been read.

## Main definitions

- `Deferred`, `Segment`, `PendingName` — a name and its parts
- `PendingName.deferred` — the values that wait for a number
- `PendingName.resolvedName?` — the name, when nothing waits
-/

namespace PatternRename

/-- A value that waits for its number. -/
structure Deferred where
  field : Nat
  raw : String
  width : Width
  deriving DecidableEq, Repr

/-- A piece of a new name. -/
inductive Segment where
  | text (text : String)
  | deferred (value : Deferred)
  deriving DecidableEq, Repr

namespace Segment

def deferred? : Segment → Option Deferred
  | .text _ => none
  | .deferred value => some value

def text? : Segment → Option String
  | .text known => some known
  | .deferred _ => none

end Segment

structure PendingName where
  source : String
  segments : List Segment
  deriving DecidableEq, Repr

namespace PendingName

/-- The values of a name that wait for a number, from left to right. -/
def deferred (name : PendingName) : List Deferred :=
  name.segments.filterMap Segment.deferred?

def isResolved (name : PendingName) : Bool :=
  name.deferred.isEmpty

def resolvedName? (name : PendingName) : Option String :=
  if name.isResolved then some (String.join (name.segments.filterMap Segment.text?)) else none

def allDeferred (names : List PendingName) : List Deferred :=
  names.flatMap deferred

end PendingName

end PatternRename
