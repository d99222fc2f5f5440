import PatternRename.CommandLine.Options
import PatternRename.Yaml.Reader

/-!
# Settings files

A settings file is a YAML map from the names of options to texts. Every option has two spellings.
Unknown keys do not count, a key may not come twice, and no value is the same as no key.

Documents, command lines and tildes are read by rules that are not made here. The readers at hand
know the parts of these rules that settings need. What is said of settings is said for any readers,
in terms of what they answer.

## Main definitions

- `Readers` — what reads documents, command lines and paths
- `Options.settings` — the settings that a command line gives
- `RequiredOption.ofKey?` — the option that a key names
- `Settings.ofNode?` — the settings in a document
- `Settings.ofFile` — the settings in the octets of a file
-/

namespace PatternRename

/-- What reads the texts that a run is given. -/
class Readers where
  readDocument : String → Option Yaml.Document
  readArguments : List String → Except Refusal Options
  /-- The path that a text stands for. A leading tilde stands for a home directory. -/
  expandHome (home text : String) : Path

/-- The readers at hand. -/
instance : Readers where
  readDocument := Yaml.readDocument
  readArguments := Options.ofArguments
  expandHome := Path.expandHome

variable [Readers]

/-- The settings that a command line gives. -/
def Options.settings (home : String) (options : Options) : Settings where
  inputDirectory := options.inputDirectory.map (Readers.expandHome home)
  outputDirectory := options.outputDirectory.map (Readers.expandHome home)
  inputPattern := options.inputPattern
  outputPattern := options.outputPattern

/-- The second spelling of an option in a settings file. -/
def RequiredOption.otherKey : RequiredOption → String
  | .inputDirectory => "inpDir"
  | .outputDirectory => "outDir"
  | .inputPattern => "filePattern"
  | .outputPattern => "outFilePattern"

def RequiredOption.all : List RequiredOption :=
  [.inputDirectory, .outputDirectory, .inputPattern, .outputPattern]

def RequiredOption.ofKey? (key : String) : Option RequiredOption :=
  RequiredOption.all.find? fun option => key == option.key || key == option.otherKey

namespace Settings

/-- Settings with one option set to a text. -/
def set (home : String) (settings : Settings) (option : RequiredOption) (text : String) :
    Settings :=
  match option with
  | .inputDirectory => { settings with inputDirectory := some (Readers.expandHome home text) }
  | .outputDirectory => { settings with outputDirectory := some (Readers.expandHome home text) }
  | .inputPattern => { settings with inputPattern := some text }
  | .outputPattern => { settings with outputPattern := some text }

/-- Goes over the pairs of a map. `seen` holds the options that have come. -/
def ofPairs? (home : String) (settings : Settings) (seen : List RequiredOption) :
    List (Yaml.Node × Yaml.Node) → Option Settings
  | [] => some settings
  | (.scalar _ key, value) :: rest =>
    match RequiredOption.ofKey? key with
    | none => ofPairs? home settings seen rest
    | some option =>
      if seen.contains option then none
      else if value.isNull then ofPairs? home settings (option :: seen) rest
      else
        match value with
        | .scalar _ text => ofPairs? home (settings.set home option text) (option :: seen) rest
        | _ => none
  | _ :: _ => none

/-- The settings in the root of a document. An empty scalar stands for an empty map. -/
def ofNode? (home : String) : Yaml.Node → Option Settings
  | .map entries => ofPairs? home {} [] entries
  | .scalar _ text => if text.isEmpty then some {} else none
  | .list _ => none

/-- The settings in a text. A text without a document gives none. -/
def ofText? (home text : String) : Option Settings :=
  match Readers.readDocument text with
  | some (.one root) => ofNode? home root
  | some .none => some {}
  | none => none

def ofFile (home : String) (path : Path) (content : List UInt8) : Except Failure Settings :=
  match Text.Utf8.decode? content with
  | none =>
    .error (.settingsNotText path ((Text.Utf8.flaw? content).getD ⟨content.length, none⟩))
  | some text =>
    match ofText? home text with
    | some settings => .ok settings
    | none =>
      .error (.settingsMalformed s!"{path.display} is not a valid rename configuration"
        "expected one YAML map from option names to texts")

end Settings

end PatternRename
