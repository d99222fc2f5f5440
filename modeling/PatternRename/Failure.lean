import PatternRename.FileTree.Basic
import PatternRename.Pattern.Flaw

/-!
# Failures

Everything that can keep a name from being made or a run from going on, by cause. The wording is
in one place.

## Main definitions

- `Failure` — the causes
- `Failure.concernsOneFile` — whether the rest of the collection is not affected
- `Failure.message`, `Failure.cause?`, `Failure.chain` — the words
-/

namespace PatternRename

/-- The options that a run cannot do without. -/
inductive RequiredOption where
  | inputDirectory
  | outputDirectory
  | inputPattern
  | outputPattern
  deriving DecidableEq, Repr

def RequiredOption.title : RequiredOption → String
  | .inputDirectory => "input directory"
  | .outputDirectory => "output directory"
  | .inputPattern => "input pattern"
  | .outputPattern => "output pattern"

/-- The name of a required option on the command line, without dashes in front. -/
def RequiredOption.flag : RequiredOption → String
  | .inputDirectory => "inp-dir"
  | .outputDirectory => "out-dir"
  | .inputPattern => "file-pattern"
  | .outputPattern => "out-file-pattern"

def RequiredOption.key : RequiredOption → String
  | .inputDirectory => "inp_dir"
  | .outputDirectory => "out_dir"
  | .inputPattern => "file_pattern"
  | .outputPattern => "out_file_pattern"

/-- Why a name was not made or a run did not go on. -/
inductive Failure where
  | malformedPattern (pattern : String) (flaw : PatternFlaw)
  | unsupportedFieldType (field spec : String)
  | noMatch (pattern filename : String)
  | invalidFieldValue (field value : String) (flaw : ValueFlaw)
  | widthOverflow (value : String) (number width : Nat)
  | unnumberedValue (value : String)
  /-- A padding is asked for that is wider than any that can be written. -/
  | paddingTooWide
  | expressionRefused (expression : String) (flaw : ExpressionFlaw)
  | fileOperation (operation : String) (path : Path) (fault : Fault)
  | settingsMalformed (detail reason : String)
  | settingsUnreadable (path : Path) (fault : Fault)
  | settingsNotText (path : Path) (flaw : Text.Utf8.Flaw)
  | optionMissing (option : RequiredOption)
  | patternsUnusable (reason : Failure)
  | inputMissing (path : Path)
  | inputNotDirectory (path : Path)
  | outputNotDirectory (path : Path)
  | directoryNotFound (path : Path)
  | directoryUnreadable (path : Path) (fault : Fault)
  | fileNameMissing (path : Path)
  | fileNameNotText (path : Path)
  | system (fault : Fault)
  | plain (text : String)
  deriving DecidableEq, Repr

namespace Failure

/-- Whether a failure concerns a single file, so that the rest of the collection goes on. -/
def concernsOneFile : Failure → Bool
  | .noMatch .. => true
  | .invalidFieldValue .. => true
  | _ => false

def message : Failure → String
  | .malformedPattern pattern flaw => s!"Malformed pattern '{pattern}': {flaw.message}"
  | .unsupportedFieldType field spec => s!"Unsupported type '{spec}' for field '{field}'"
  | .noMatch pattern filename => s!"No match found for pattern '{pattern}' in '{filename}'"
  | .invalidFieldValue field value flaw =>
    s!"Cannot convert value '{value}' of field '{field}': {flaw.message}"
  | .widthOverflow value number width =>
    s!"Value '{value}' was assigned {number}, which does not fit in {width} digit(s)"
  | .unnumberedValue value => s!"Value '{value}' was not part of the enumerated collection"
  | .paddingTooWide => "Formatting argument out of range"
  | .expressionRefused expression _ => s!"Invalid pattern: {expression}"
  | .fileOperation operation path _ => s!"Failed to {operation} file: {path.display}"
  | .settingsMalformed detail reason => s!"Configuration parsing error: {detail}: {reason}"
  | .settingsUnreadable path fault =>
    s!"Failed to read configuration file {path.display}: {fault.message}"
  | .settingsNotText path flaw =>
    s!"Configuration file {path.display} contains invalid UTF-8 characters: {flaw.message}"
  | .optionMissing option =>
    s!"No {option.title} specified. Use --{option.flag} or set {option.key} in the config file."
  | .patternsUnusable reason => s!"Invalid rename patterns: {reason.message}"
  | .inputMissing path =>
    s!"Input directory does not exist: {path.display}\nPlease check the path and ensure it exists."
  | .inputNotDirectory path =>
    s!"Input path is not a directory: {path.display}\nPlease specify a valid directory path."
  | .outputNotDirectory path =>
    s!"Output path is not a directory: {path.display}\nPlease specify a valid directory path."
  | .directoryNotFound path => s!"Directory not found: {path.display}"
  | .directoryUnreadable path fault =>
    s!"Failed to read directory {path.display}: {fault.message}"
  | .fileNameMissing path => s!"Failed to get filename from path: {path.display}"
  | .fileNameNotText path => s!"Filename is not valid unicode: {path.display}"
  | .system fault => fault.message
  | .plain text => text

/-- The words for what caused a failure, where another part of the system caused it. -/
def cause? : Failure → Option String
  | .expressionRefused _ flaw => some flaw.message
  | .fileOperation _ _ fault => some fault.message
  | .settingsMalformed _ reason => some reason
  | _ => none

def chain (failure : Failure) : String :=
  match failure.cause? with
  | some cause => s!"{failure.message}: {cause}"
  | none => failure.message

def ofFault (fault : Fault) : Failure :=
  .fileOperation "perform operation on" ⟨[]⟩ fault

def ofExpressionFlaw (flaw : ExpressionFlaw) : Failure :=
  .expressionRefused "" flaw

end Failure

end PatternRename
