import TestTree.CommandLine.Options
import TestTree.Text.Split

/-! # Reading arguments

Arguments are read from left to right. Flags and values that are attached to their option take
effect at once. An option whose value is the next argument stays pending: its value is looked at
only when the next option takes effect or at the end, so an unknown argument in between is reported
first. A subcommand reads all arguments after it before that. Last come the environment variables,
for options that no argument gives. -/

namespace TestTree.CommandLine

/-! ### Options by name -/

/-- An option with a value. -/
inductive ValueOption where
  | format
  | input
  deriving DecidableEq, Repr

/-- An option without a value. -/
inductive Flag where
  | noPassthrough
  | verbose
  | quiet
  deriving DecidableEq, Repr

/-- What an option does. -/
inductive Effect where
  | value (option : ValueOption)
  | flag (flag : Flag)
  /-- The arguments are at an end. -/
  | stop (usage : Usage)
  deriving DecidableEq, Repr

/-- The effect of an option with a long name. -/
def longEffect? (name : String) : Option Effect :=
  if name = "format" then some (.value .format)
  else if name = "input" then some (.value .input)
  else if name = "no-passthrough" then some (.flag .noPassthrough)
  else if name = "verbose" then some (.flag .verbose)
  else if name = "quiet" then some (.flag .quiet)
  else if name = "help" then some (.stop .displayHelp)
  else if name = "version" then some (.stop .displayVersion)
  else none

/-- The effect of an option with a short name. -/
def shortEffect? (letter : Char) : Option Effect :=
  if letter = 'f' then some (.value .format)
  else if letter = 'i' then some (.value .input)
  else if letter = 'v' then some (.flag .verbose)
  else if letter = 'q' then some (.flag .quiet)
  else if letter = 'h' then some (.stop .displayHelp)
  else if letter = 'V' then some (.stop .displayVersion)
  else none

/-- The form of an argument. -/
inductive Form where
  /-- Two dashes alone: no option follows. -/
  | escape
  /-- A long name, and the value after an equals sign. -/
  | long (name : String) (value : Option String)
  /-- Short names, or one with its value. -/
  | short (letters : List Char)
  /-- Anything else, a dash alone included. -/
  | plain
  deriving DecidableEq, Repr

/-- The form that an argument has. -/
def formOf (argument : String) : Form :=
  match argument.toList with
  | ['-', '-'] => .escape
  | '-' :: '-' :: rest =>
    match Text.cutFirst ['='] rest with
    | some (name, value) => .long (String.ofList name) (some (String.ofList value))
    | none => .long (String.ofList rest) none
  | '-' :: c :: letters => .short (c :: letters)
  | _ => .plain

/-! ### What was given -/

/-- The options that have taken effect. -/
structure Given where
  format : Option Console.Format
  input : Option String
  noPassthrough : Bool
  verbose : Bool
  quiet : Bool
  deriving DecidableEq, Repr

/-- No options. -/
def Given.none : Given := ⟨.none, .none, false, false, false⟩

/-- A format by name. -/
def readFormat (value : String) : Except Usage Console.Format :=
  match format? value with
  | some format => .ok format
  | none => .error .invalidValue

/-- The name of a file, which is not blank. -/
def readFile (value : String) : Except Usage String :=
  if value = "" then .error .invalidValue else .ok value

/-- An option with a value takes effect. That it was given before counts before the value does. -/
def Given.setValue (given : Given) (option : ValueOption) (value : String) : Except Usage Given :=
  match option with
  | .format =>
    if given.format.isSome then .error .argumentConflict
    else (readFormat value).map fun format => { given with format := some format }
  | .input =>
    if given.input.isSome then .error .argumentConflict
    else (readFile value).map fun file => { given with input := some file }

/-- A flag takes effect. -/
def Given.setFlag (given : Given) : Flag → Except Usage Given
  | .noPassthrough =>
    if given.noPassthrough then .error .argumentConflict
    else .ok { given with noPassthrough := true }
  | .verbose =>
    if given.verbose then .error .argumentConflict else .ok { given with verbose := true }
  | .quiet => if given.quiet then .error .argumentConflict else .ok { given with quiet := true }

/-- What was given, and the option that is pending with its value, if that was given too. -/
structure Reader where
  given : Given
  pending : Option (ValueOption × Option String)

/-- The next argument is the value of an option, unless it looks like one itself. -/
def Reader.awaited? (reader : Reader) : Option ValueOption :=
  match reader.pending with
  | some (option, none) => some option
  | _ => none

/-- The pending option takes effect. -/
def Reader.settle (reader : Reader) : Except Usage Given :=
  match reader.pending with
  | none => .ok reader.given
  | some (_, none) => .error .invalidValue
  | some (option, some value) => reader.given.setValue option value

/-! ### Options -/

/-- An option with its value takes effect. -/
def Reader.attach (reader : Reader) (option : ValueOption) (value : String) :
    Except Usage Reader := do
  let given ← (← reader.settle).setValue option value
  return ⟨given, none⟩

/-- An option waits for its value. -/
def Reader.await (reader : Reader) (option : ValueOption) : Except Usage Reader := do
  return ⟨← reader.settle, some (option, none)⟩

/-- An option without a value takes effect. -/
def Reader.apply (reader : Reader) (flag : Flag) : Except Usage Reader := do
  let given ← (← reader.settle).setFlag flag
  return ⟨given, none⟩

/-- An option that ends the arguments takes effect. -/
def Reader.stop (reader : Reader) (usage : Usage) : Except Usage Reader := do
  let _ ← reader.settle
  .error usage

/-- An option with a long name. -/
def Reader.long (reader : Reader) (name : String) (value : Option String) : Except Usage Reader :=
  match longEffect? name, value with
  | none, _ => .error .unknownArgument
  | some (.value option), some value => reader.attach option value
  | some (.value option), none => reader.await option
  | some (.flag _), some _ | some (.stop _), some _ => .error .tooManyValues
  | some (.flag flag), none => reader.apply flag
  | some (.stop usage), none => reader.stop usage

/-- Options with short names. What follows one with a value is its value, after an equals sign or
not. -/
def Reader.short (reader : Reader) : List Char → Except Usage Reader
  | [] => .ok reader
  | letter :: rest =>
    match shortEffect? letter with
    | none => .error .unknownArgument
    | some (.value option) =>
      match rest with
      | [] => reader.await option
      | '=' :: value => reader.attach option (String.ofList value)
      | value => reader.attach option (String.ofList value)
    | some (.flag flag) => do (← reader.apply flag).short rest
    | some (.stop usage) => reader.stop usage

/-! ### Subcommands -/

/-- The arguments after the subcommand `help`: it explains a subcommand or the whole program. -/
def readHelp : List String → Usage
  | [] | ["locate"] | ["help"] => .displayHelp
  | _ => .invalidSubcommand

/-- The arguments after the subcommand `locate`, given the identifier if it was met, and whether
options have come to an end. -/
def readLocate (identifier : Option String) (escaped : Bool) : List String → Except Usage String
  | [] =>
    match identifier with
    | some identifier => .ok identifier
    | none => .error .missingRequiredArgument
  | argument :: rest =>
    match escaped, formOf argument with
    | false, .escape => readLocate identifier true rest
    | false, .long name value =>
      match longEffect? name, value with
      | some (.stop .displayHelp), none => .error .displayHelp
      | some (.stop .displayHelp), some _ => .error .tooManyValues
      | _, _ => .error .unknownArgument
    | false, .short letters =>
      .error (if letters.head? = some 'h' then .displayHelp else .unknownArgument)
    | _, _ =>
      match identifier with
      | some _ => .error .unknownArgument
      | none => readLocate (some argument) escaped rest

/-! ### All arguments -/

/-- The reason why an argument after two dashes cannot be. -/
def strayReason (argument : String) : Usage :=
  if argument = "locate" || argument = "help" then .unknownArgument else .invalidSubcommand

/-- The options that arguments give, and the identifier to locate. -/
def Reader.read (reader : Reader) : List String → Except Usage (Given × Option String)
  | [] => do return (← reader.settle, none)
  | argument :: rest =>
    match reader.awaited?, argument, formOf argument with
    | none, "help", _ => .error (readHelp rest)
    | none, "locate", _ => do
      let identifier ← readLocate none false rest
      return (← reader.settle, some identifier)
    | some option, _, .plain => Reader.read ⟨reader.given, some (option, some argument)⟩ rest
    | none, _, .plain => .error .invalidSubcommand
    | _, _, .escape =>
      match rest with
      | [] => do return (← reader.settle, none)
      | stray :: _ => .error (strayReason stray)
    | _, _, .long name value => do (← reader.long name value).read rest
    | _, _, .short letters => do (← reader.short letters).read rest

/-- The environment variable for the format. -/
def formatVariable : String := "ELMTEST_BRIDGE_FORMAT"

/-- The environment variable for the input. -/
def inputVariable : String := "ELMTEST_BRIDGE_INPUT"

/-- The value of an option, else of its environment variable. -/
def orVariable {α : Type} (given : Option α) (variableValue : Option String)
    (read : String → Except Usage α) : Except Usage (Option α) :=
  match given, variableValue with
  | some a, _ => .ok (some a)
  | none, some value => (read value).map some
  | none, none => .ok none

/-- The options that arguments and environment variables give. -/
def parse (arguments : List String) (environment : String → Option String) :
    Except Usage Options := do
  let (given, identifier) ← Reader.read ⟨.none, none⟩ arguments
  let format ← orVariable given.format (environment formatVariable) readFormat
  let input ← orVariable given.input (environment inputVariable) readFile
  return {
    locate := identifier
    format := format.getD .teamcity
    input
    passthrough := !given.noPassthrough
    verbose := given.verbose
    quiet := given.quiet }

end TestTree.CommandLine
