import PatternRename.Event
import PatternRename.Pattern.Expression
import PatternRename.Pattern.Parser
import PatternRename.Renaming.Numbering
import PatternRename.Renaming.Reencoding
import PatternRename.Renaming.Report

/-!
# Renaming a collection

A renamer is an input and an output pattern with equally many fields, which are paired by
position. It makes a new name for each name of a collection. Names that do not fit are left out;
the values that wait for a number are numbered across all others.

## Main definitions

- `pairFields` — the fields of two patterns side by side
- `Renamer`, `Renamer.ofPatterns`, `Renamer.ofTexts` — two patterns that go together
- `Renamer.pend` — the new name for one name, before numbering
- `Renamer.rename` — the new names of a collection
- `Renamer.setupEvents`, `Renamer.events` — what is reported about it
-/

namespace PatternRename

def countMismatch (input output : Pattern) : Failure :=
  .malformedPattern output.render (.fieldCount output.fieldCount input.render input.fieldCount)

/-- The fields of two patterns side by side. They must be equally many. -/
def pairFields (input output : Pattern) : Except Failure (List (Field × Field)) :=
  if input.fieldCount = output.fieldCount then .ok (input.fields.zip output.fields)
  else .error (countMismatch input output)

/-- What is reported about paired fields: those that do not share a name. -/
def pairingEvents (pairs : List (Field × Field)) : List Event :=
  pairs.filterMap fun (input, output) =>
    if input.name = output.name then none else some (.namesDiffer input.name output.name)

/-- An input and an output pattern that go together. -/
structure Renamer where
  input : Pattern
  output : Pattern
  fieldCount_eq : input.fieldCount = output.fieldCount
  compiledSize_le : input.compiledSize ≤ Pattern.maxCompiledSize

namespace Renamer

def ofPatterns (input output : Pattern) : Except Failure Renamer :=
  if hcount : input.fieldCount = output.fieldCount then
    if hsize : input.compiledSize ≤ Pattern.maxCompiledSize then .ok ⟨input, output, hcount, hsize⟩
    else .error input.tooLarge
  else .error (countMismatch input output)

/-- The renamer for two patterns that are written as texts. The input pattern is read first. -/
def ofTexts (input output : String) : Except Failure Renamer :=
  match Pattern.parse input with
  | .error failure => .error failure
  | .ok p =>
    match Pattern.parse output with
    | .error failure => .error failure
    | .ok q => ofPatterns p q

def setupEvents (input output : Pattern) : List Event :=
  match pairFields input output with
  | .error _ => []
  | .ok pairs =>
    pairingEvents pairs ++
      if input.compiledSize ≤ Pattern.maxCompiledSize then
        [.patternCompiled input.render input.expression]
      else []

def pairs (r : Renamer) : List (Field × Field) :=
  r.input.fields.zip r.output.fields

/-- The new name for a name, with the values that wait for a number still open. -/
def pend (r : Renamer) (filename : String) : Except Failure PendingName :=
  match r.input.find filename with
  | .error failure => .error failure
  | .ok found => reencodeMatch filename r.pairs r.output found

/-- What became of one name before numbering. -/
abbrev Attempt := String × Except Failure PendingName

def attempts (r : Renamer) (filenames : List String) : List Attempt :=
  filenames.map fun filename => (filename, r.pend filename)

def pending (attempts : List Attempt) : List PendingName :=
  attempts.filterMap fun (_, outcome) => outcome.toOption

/-- The names that do not fit and are left out. -/
def leftOut (attempts : List Attempt) : List LeftOut :=
  attempts.filterMap fun (filename, outcome) =>
    match outcome with
    | .error failure => if failure.concernsOneFile then some ⟨filename, failure⟩ else none
    | .ok _ => none

/-- The first failure that does not concern its file alone. -/
def firstStop? (attempts : List Attempt) : Option Failure :=
  attempts.findSome? fun (_, outcome) =>
    match outcome with
    | .error failure => if failure.concernsOneFile then none else some failure
    | .ok _ => none

def finishAll (numbering : Numbering) : List PendingName → Except Failure (List RenamedFile)
  | [] => .ok []
  | name :: rest =>
    match numbering.finish name with
    | .error failure => .error failure
    | .ok target => (finishAll numbering rest).map (⟨name.source, target⟩ :: ·)

/-- The report on attempts: once all names are made, the waiting values are numbered, the numbers
are checked, and every name is finished. -/
def settle (attempts : List Attempt) : Except Failure Report :=
  match firstStop? attempts with
  | some failure => .error failure
  | none =>
    let names := pending attempts
    let numbering := Numbering.ofNames names
    match numbering.check names with
    | .error failure => .error failure
    | .ok () => (finishAll numbering names).map fun renamed => ⟨renamed, leftOut attempts⟩

/-- The new names of a collection. -/
def rename (r : Renamer) (filenames : List String) : Except Failure Report :=
  settle (r.attempts filenames)

def attemptEvents (attempts : List Attempt) : List Event :=
  attempts.filterMap fun (filename, outcome) =>
    match outcome with
    | .ok name => some (.nameWritten filename name.segments)
    | .error _ => none

def numberingEvents (numbering : Numbering) (names : Nat) : List Event :=
  .valuesNumbered numbering.size names ::
    numbering.entries.map fun (value, number) => .valueNumbered value number

def reportEvents (r : Renamer) (files values : Nat) (report : Report) : List Event :=
  .namesMade report.renamed.length files values ::
    if report.isComplete then []
    else [.namesUnfit report.leftOut.length r.input.render]

def events (r : Renamer) (attempts : List Attempt) (outcome : Except Failure Report) :
    List Event :=
  let names := pending attempts
  let numbering := Numbering.ofNames names
  attemptEvents attempts ++
    (leftOut attempts).map (fun file => .fileSkipped file.filename file.failure) ++
    numberingEvents numbering names.length ++
    match outcome with
    | .ok report => r.reportEvents attempts.length numbering.size report
    | .error _ => []

end Renamer

end PatternRename
