/-!
# The switches of the command line

Each switch has a long name and a letter. Some take a value.

## Main definitions

- `Switch` — the switches
- `Switch.longName`, `Switch.letter`, `Switch.takesValue` — how each is written
- `Switch.ofLongName?`, `Switch.ofLetter?` — the switch that is meant
- `usage` — the text that lists all of them
-/

namespace PatternRename

inductive Switch where
  | inputDirectory
  | outputDirectory
  | inputPattern
  | outputPattern
  | settingsFile
  | dryRun
  | logFile
  | logLocally
  | verbose
  | help
  | version
  deriving DecidableEq, Repr

namespace Switch

def all : List Switch :=
  [.inputDirectory, .outputDirectory, .inputPattern, .outputPattern, .settingsFile, .dryRun,
    .logFile, .logLocally, .verbose, .help, .version]

/-- The name that is written after two dashes. -/
def longName : Switch → String
  | inputDirectory => "inp-dir"
  | outputDirectory => "out-dir"
  | inputPattern => "file-pattern"
  | outputPattern => "out-file-pattern"
  | settingsFile => "config"
  | dryRun => "dry"
  | logFile => "log-file"
  | logLocally => "log-locally"
  | verbose => "verbose"
  | help => "help"
  | version => "version"

def letter : Switch → Char
  | inputDirectory => 'i'
  | outputDirectory => 'o'
  | inputPattern => 'f'
  | outputPattern => 'p'
  | settingsFile => 'c'
  | dryRun => 'n'
  | logFile => 'l'
  | logLocally => 'L'
  | verbose => 'v'
  | help => 'h'
  | version => 'V'

def takesValue : Switch → Bool
  | inputDirectory | outputDirectory | inputPattern | outputPattern | settingsFile | logFile => true
  | dryRun | logLocally | verbose | help | version => false

def isRepeatable : Switch → Bool
  | verbose => true
  | _ => false

def ofLongName? (name : String) : Option Switch :=
  all.find? (·.longName == name)

def ofLetter? (c : Char) : Option Switch :=
  all.find? (·.letter == c)

def purpose : Switch → String
  | inputDirectory => "Input image collection to be processed"
  | outputDirectory => "Output image collection of renamed files"
  | inputPattern => "Filename pattern used to separate data, " ++
      "e.g. img_x{row:dd}_y{col:dd}_{channel:c+}.tif"
  | outputPattern => "Desired filename pattern, " ++
      "e.g. new_x{row:ddd}_y{col:ddd}_c{channel:ddd}.tif"
  | settingsFile => "Read options from a YAML config file"
  | dryRun => "Show the planned renames without copying any files"
  | logFile => "Write log messages to this file as well"
  | logLocally => "Keep the log file next to the working directory instead of the config directory"
  | verbose => "Increase verbosity level (can be used multiple times)"
  | help => "Print help"
  | version => "Print version"

def usageLine (switch : Switch) : String :=
  let value := if switch.takesValue then s!" <{switch.longName}>" else ""
  s!"  -{switch.letter}, --{switch.longName}{value}\n          {switch.purpose}\n"

end Switch

def usage : String :=
  "Usage: frename [OPTIONS]\n\nOptions:\n" ++ String.join (Switch.all.map Switch.usageLine)

def versionText : String := "file_rename 0.3.0\n"

end PatternRename
