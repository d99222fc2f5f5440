import PatternRename.CommandLine.Switch
import PatternRename.Event
import PatternRename.Settings.Basic

/-!
# Reading a command line

The arguments are read from left to right. A switch that takes a value takes it from the same
argument, or from the next one unless that begins with a dash. What a switch says counts only when
the next switch or the end has come, so an argument that is not known is refused before a value
that is missing.

## Main definitions

- `Options` — what a command line asks for
- `Refusal` — why a command line does not lead to a run
- `Options.ofArguments` — the options of a command line
-/

namespace PatternRename

/-- What a command line asks for. -/
structure Options where
  inputDirectory : Option String := none
  outputDirectory : Option String := none
  inputPattern : Option String := none
  outputPattern : Option String := none
  settingsFile : Option String := none
  dryRun : Bool := false
  logFile : String := "file_rename.log"
  logLocally : Bool := false
  verbose : Nat := 0
  deriving DecidableEq, Repr

/-- Why a command line does not lead to a run. -/
inductive Refusal where
  | help
  | version
  | unknownArgument
  | missingValue
  | unwantedValue
  | repeatedSwitch
  deriving DecidableEq, Repr

namespace Options

def withValue (options : Options) (switch : Switch) (value : String) : Options :=
  match switch with
  | .inputDirectory => { options with inputDirectory := some value }
  | .outputDirectory => { options with outputDirectory := some value }
  | .inputPattern => { options with inputPattern := some value }
  | .outputPattern => { options with outputPattern := some value }
  | .settingsFile => { options with settingsFile := some value }
  | .logFile => { options with logFile := value }
  | _ => options

def withSwitch (options : Options) (switch : Switch) : Options :=
  match switch with
  | .dryRun => { options with dryRun := true }
  | .logLocally => { options with logLocally := true }
  | .verbose => { options with verbose := options.verbose + 1 }
  | _ => options

def verbosity (options : Options) : Verbosity :=
  Verbosity.ofCount options.verbose

end Options

/-- A command line that has been read up to some argument. -/
structure PartialOptions where
  options : Options := {}
  given : List Switch := []
  /-- The last switch, if it takes a value from later arguments, with its value once that has
  come. -/
  waiting : Option (Switch × Option String) := none
  deriving DecidableEq, Repr

namespace PartialOptions

/-- Notes a switch, which may not have been given before. -/
def note (state : PartialOptions) (switch : Switch) : Except Refusal PartialOptions :=
  if state.given.contains switch && !switch.isRepeatable then .error .repeatedSwitch
  else .ok { state with given := switch :: state.given }

/-- Lets the waiting switch count. -/
def settle (state : PartialOptions) : Except Refusal PartialOptions :=
  match state.waiting with
  | none => .ok state
  | some (_, none) => .error .missingValue
  | some (switch, some value) =>
    (state.note switch).map fun noted =>
      { noted with options := state.options.withValue switch value, waiting := none }

def takeValue (state : PartialOptions) (switch : Switch) (value : String) :
    Except Refusal PartialOptions := do
  let settled ← state.settle
  let noted ← settled.note switch
  return { noted with options := noted.options.withValue switch value }

/-- Takes in a switch whose value comes with the next argument. -/
def awaitValue (state : PartialOptions) (switch : Switch) : Except Refusal PartialOptions := do
  let settled ← state.settle
  return { settled with waiting := some (switch, none) }

def takeSwitch (state : PartialOptions) (switch : Switch) : Except Refusal PartialOptions := do
  let settled ← state.settle
  match switch with
  | .help => throw .help
  | .version => throw .version
  | _ =>
    let noted ← settled.note switch
    return { noted with options := noted.options.withSwitch switch }

/-- Takes in the text of an argument that is no switch: the value that is waited for. -/
def takePlain (state : PartialOptions) (text : String) : Except Refusal PartialOptions :=
  match state.waiting with
  | some (switch, none) => .ok { state with waiting := some (switch, some text) }
  | _ => .error .unknownArgument

def readLong (state : PartialOptions) (text : List Char) : Except Refusal PartialOptions :=
  match Switch.ofLongName? (String.ofList (text.takeWhile (· != '='))) with
  | none => .error .unknownArgument
  | some switch =>
    match text.dropWhile (· != '=') with
    | _ :: value =>
      if switch.takesValue then state.takeValue switch (String.ofList value)
      else .error .unwantedValue
    | [] => if switch.takesValue then state.awaitValue switch else state.takeSwitch switch

/-- Reads the letters behind one dash. The letters behind a switch that takes a value are its
value; an equals sign between them does not count. -/
def readLetters (state : PartialOptions) : List Char → Except Refusal PartialOptions
  | [] => .ok state
  | c :: rest =>
    match Switch.ofLetter? c with
    | none => .error .unknownArgument
    | some switch =>
      if switch.takesValue then
        match rest with
        | [] => state.awaitValue switch
        | '=' :: value => state.takeValue switch (String.ofList value)
        | value => state.takeValue switch (String.ofList value)
      else
        match state.takeSwitch switch with
        | .error refusal => .error refusal
        | .ok next => readLetters next rest

/-- Reads arguments. Behind two dashes that stand alone no argument is known. -/
def readAll (state : PartialOptions) : List String → Except Refusal PartialOptions
  | [] => state.settle
  | argument :: rest =>
    match argument.toList with
    | ['-', '-'] => if rest.isEmpty then state.settle else .error .unknownArgument
    | '-' :: '-' :: text =>
      match state.readLong text with
      | .error refusal => .error refusal
      | .ok next => readAll next rest
    | '-' :: c :: letters =>
      match state.readLetters (c :: letters) with
      | .error refusal => .error refusal
      | .ok next => readAll next rest
    | _ =>
      match state.takePlain argument with
      | .error refusal => .error refusal
      | .ok next => readAll next rest

end PartialOptions

def Options.ofArguments (arguments : List String) : Except Refusal Options :=
  (PartialOptions.readAll {} arguments).map PartialOptions.options

end PatternRename
