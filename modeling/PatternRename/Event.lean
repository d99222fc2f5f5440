import PatternRename.Failure
import PatternRename.Pattern.Basic
import PatternRename.Renaming.PendingName
import PatternRename.Text.Quoted

/-!
# Events of a run

What a run reports while it goes on. Every event has a level, comes from a part of the program
and has words; a run shows the events up to a level.

## Main definitions

- `Level`, `Verbosity` — how detailed an event is, and how much detail is asked for
- `Event` — what can happen
- `Event.level`, `Event.area`, `Event.message` — its level, origin and words
- `Event.consoleLine`, `Event.fileLine` — how it is written
-/

namespace PatternRename

/-- How detailed an event is, from the gravest to the most detailed. -/
inductive Level where
  | error
  | warn
  | info
  | debug
  | trace
  deriving DecidableEq, Repr

namespace Level

/-- The place of a level among the levels, the gravest first. -/
def rank : Level → Nat
  | error => 0
  | warn => 1
  | info => 2
  | debug => 3
  | trace => 4

def name : Level → String
  | error => "ERROR"
  | warn => "WARN"
  | info => "INFO"
  | debug => "DEBUG"
  | trace => "TRACE"

def colour : Level → Nat
  | error => 31
  | warn => 33
  | info => 37
  | debug => 37
  | trace => 90

/-- Whether events of a level are shown when the most detailed level is `most`. -/
def isShown (most level : Level) : Bool :=
  level.rank ≤ most.rank

end Level

inductive Verbosity where
  | info
  | debug
  | trace
  deriving DecidableEq, Repr

namespace Verbosity

/-- The detail that is asked for by naming the option so many times. -/
def ofCount : Nat → Verbosity
  | 0 => .info
  | 1 => .debug
  | _ => .trace

def level : Verbosity → Level
  | info => .info
  | debug => .debug
  | trace => .trace

def name : Verbosity → String
  | info => "Info"
  | debug => "Debug"
  | trace => "Trace"

end Verbosity

def Width.show : Width → String
  | .fixed n => s!"Fixed({n})"
  | .unbounded => "Unbounded"

def Segment.show : Segment → String
  | .text known => s!"Text({Text.quoted known})"
  | .deferred value =>
    let raw := Text.quoted value.raw
    s!"Deferred(Deferred \x7b field: {value.field}, raw: {raw}, width: {value.width.show} \x7d)"

/-- A count of what a run did. -/
structure Tally where
  scanned : Nat := 0
  renamed : Nat := 0
  copied : Nat := 0
  unmatched : Nat := 0
  /-- Files whose new name an earlier file had got already. -/
  collisions : Nat := 0
  /-- Files that could not be renamed or copied for any other reason. -/
  errors : Nat := 0
  deriving DecidableEq, Repr

/-- What a run reports. -/
inductive Event where
  | loggerReady (verbosity : Verbosity)
  | settingsLoaded (path : Path)
  | namesDiffer (input output : String)
  | patternCompiled (pattern expression : String)
  | inputExpression (expression : String)
  | listing (directory : Path)
  | listingSkips (failure : Failure)
  | listed (count : Nat)
  | noFiles (directory : Path)
  | renamingBegins (count : Nat) (dryRun : Bool)
  | nameWritten (filename : String) (segments : List Segment)
  | fileSkipped (filename : String) (failure : Failure)
  | valuesNumbered (values names : Nat)
  | valueNumbered (value : String) (number : Nat)
  | namesMade (made files values : Nat)
  | namesUnfit (count : Nat) (pattern : String)
  | collision (previous current target : String)
  | fileRenamed (source target : String)
  | copying (source target : Path)
  | copyPlanned (source target : Path)
  | copyFailed (source : Path) (failure : Failure)
  | renamingEnds (tally : Tally)
  | runEnds (tally : Tally)
  | runFails (failure : Failure)
  deriving DecidableEq, Repr

namespace Event

def level : Event → Level
  | loggerReady _ => .debug
  | settingsLoaded _ => .debug
  | namesDiffer .. => .warn
  | patternCompiled .. => .debug
  | inputExpression _ => .debug
  | listing _ => .debug
  | listingSkips _ => .warn
  | listed _ => .debug
  | noFiles _ => .info
  | renamingBegins .. => .info
  | nameWritten .. => .trace
  | fileSkipped .. => .warn
  | valuesNumbered .. => .debug
  | valueNumbered .. => .trace
  | namesMade .. => .debug
  | namesUnfit .. => .info
  | collision .. => .warn
  | fileRenamed .. => .info
  | copying .. => .debug
  | copyPlanned .. => .debug
  | copyFailed .. => .error
  | renamingEnds _ => .info
  | runEnds _ => .info
  | runFails _ => .error

/-- The part of the program that an event comes from, as log files name it. -/
def area : Event → String
  | loggerReady _ => "file_rename::logging"
  | settingsLoaded _ => "file_rename::config::loader"
  | namesDiffer .. => "file_rename::pattern::translator"
  | patternCompiled .. => "file_rename::pattern::matcher"
  | listing _ | listingSkips _ | listed _ => "file_rename::discovery::scanner"
  | nameWritten .. | fileSkipped .. | namesMade .. | namesUnfit .. => "file_rename::rename::renamer"
  | valuesNumbered .. | valueNumbered .. => "file_rename::rename::enumerator"
  | copying .. | copyPlanned .. => "file_rename::file_ops::actions"
  | inputExpression _ | noFiles _ | renamingBegins .. | collision .. | fileRenamed ..
  | copyFailed .. | renamingEnds _ => "file_rename::workflow::engine"
  | runEnds _ | runFails _ => "frename"

def message : Event → String
  | loggerReady verbosity => s!"Logger initialized with verbosity level: {verbosity.name}"
  | settingsLoaded path => s!"Loaded configuration from {path.display}"
  | namesDiffer input output =>
    s!"Input field '{input}' is written to output field '{output}'; " ++
      "fields are paired by position"
  | patternCompiled pattern expression =>
    s!"Compiled pattern '{pattern}' to expression '{expression}'"
  | inputExpression expression => s!"Input expression: {expression}"
  | listing directory => s!"Scanning directory: {directory.display}"
  | listingSkips failure => s!"Skipping file: {failure.message}"
  | listed count => s!"Found {count} files in directory"
  | noFiles directory => s!"No files found in {directory.display}"
  | renamingBegins count dryRun =>
    s!"Renaming {count} files" ++ (if dryRun then " (dry run)" else "") ++ "..."
  | nameWritten filename segments =>
    let shown := ", ".intercalate (segments.map Segment.show)
    s!"Rewrote {filename} to [{shown}]"
  | fileSkipped filename failure => s!"Skipping {filename}: {failure.message}"
  | valuesNumbered values names =>
    s!"Enumerated {values} distinct value(s) across {names} filename(s)"
  | valueNumbered value number => s!"  {value} -> {number}"
  | namesMade made files values =>
    s!"Renamed {made} of {files} filename(s) using {values} enumerated value(s)"
  | namesUnfit count pattern => s!"{count} filename(s) did not match '{pattern}'"
  | collision previous current target =>
    s!"{previous} and {current} are both renamed to {target}; the copy of {current} wins"
  | fileRenamed source target => s!"{source} -> {target}"
  | copying source target => s!"Copying file: {source.display} -> {target.display}"
  | copyPlanned source target => s!"Simulating copy: {source.display} -> {target.display}"
  | copyFailed source failure => s!"Failed to copy {source.display}: {failure.message}"
  | renamingEnds t =>
    s!"Finished: {t.renamed} renamed, {t.unmatched} unmatched, {t.errors} errors"
  | runEnds t =>
    s!"Scanned {t.scanned} files: {t.renamed} renamed, {t.copied} copied, " ++
      s!"{t.unmatched} unmatched, {t.collisions} collisions, {t.errors} errors"
  | runFails failure => failure.chain

/-- How an event is written to the console, in the colour of its level. -/
def consoleLine (event : Event) : String :=
  s!"\x1b[{event.level.colour}m{event.message}\x1b[0m\n"

def fileLine (time : String) (event : Event) : String :=
  s!"[{time} {event.level.name} {event.area}] {event.message}\n"

end Event

end PatternRename
