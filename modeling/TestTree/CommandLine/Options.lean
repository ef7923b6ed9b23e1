import TestTree.Console.Feed

/-! # Options

What a command line can ask for, and the ways in which it can be at fault. -/

namespace TestTree.CommandLine

/-- What is asked for. -/
structure Options where
  /-- The identifier to locate; otherwise a test console is fed. -/
  locate : Option String
  format : Console.Format
  /-- The file with the output of the runner; otherwise it is read from standard input. -/
  input : Option String
  passthrough : Bool
  verbose : Bool
  quiet : Bool
  deriving DecidableEq, Repr

/-- The least important level that is logged. Verbose wins over quiet. -/
def Options.level (o : Options) : Log.Level :=
  if o.verbose then .debug else if o.quiet then .warn else .info

/-- The settings for feeding a test console. -/
def Options.settings (o : Options) : Console.Settings := ⟨o.format, o.passthrough⟩

/-- The format with a name. -/
def format? (name : String) : Option Console.Format :=
  if name = "teamcity" then some .teamcity else if name = "json" then some .json else none

/-- The name of a format. -/
def formatName : Console.Format → String
  | .teamcity => "teamcity"
  | .json => "json"

/-- Why a command line gives no options. -/
inductive Usage where
  /-- The value of an option is missing or is not one that it takes. -/
  | invalidValue
  | unknownArgument
  /-- An option is given twice. -/
  | argumentConflict
  | invalidSubcommand
  | missingRequiredArgument
  /-- A value is given to an option that takes none. -/
  | tooManyValues
  /-- The help is asked for. -/
  | displayHelp
  /-- The version is asked for. -/
  | displayVersion
  deriving DecidableEq, Repr

/-- The name of a reason. -/
def Usage.name : Usage → String
  | .invalidValue => "InvalidValue"
  | .unknownArgument => "UnknownArgument"
  | .argumentConflict => "ArgumentConflict"
  | .invalidSubcommand => "InvalidSubcommand"
  | .missingRequiredArgument => "MissingRequiredArgument"
  | .tooManyValues => "TooManyValues"
  | .displayHelp => "DisplayHelp"
  | .displayVersion => "DisplayVersion"

/-- The exit code for a reason: to ask for help or the version is no fault. -/
def Usage.exitCode : Usage → Nat
  | .displayHelp | .displayVersion => 0
  | _ => 2

end TestTree.CommandLine
