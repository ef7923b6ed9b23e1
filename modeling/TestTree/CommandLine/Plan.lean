import TestTree.CommandLine.Arguments
import TestTree.Location

/-! # What to do

From the options follows what the program does: show a place, feed a test console, or fail with
a message. The input is checked first in any case. -/

namespace TestTree.CommandLine

/-- What a file name stands for. -/
inductive Entry where
  | missing
  | file
  /-- A directory, or anything else that is not a regular file. -/
  | other
  deriving DecidableEq, Repr

/-- Why an input cannot be used. -/
inductive InputFault where
  | notFound (name : String)
  | notFile (name : String)
  deriving DecidableEq, Repr

/-- The wording of a fault. -/
def InputFault.message : InputFault → String
  | .notFound name => s!"Input file not found: {name}"
  | .notFile name => s!"Input path is not a file: {name}"

/-- The fault of the input that options name, if there is one. -/
def Options.inputFault? (o : Options) (entry : String → Entry) : Option InputFault :=
  match o.input with
  | none => none
  | some name =>
    match entry name with
    | .missing => some (.notFound name)
    | .other => some (.notFile name)
    | .file => none

/-- What the program does. -/
inductive Plan where
  /-- Show a text on a line of its own. -/
  | show (text : String)
  /-- Feed a test console with the output of a runner, from a file or standard input. -/
  | feed (settings : Console.Settings) (input : Option String)
  /-- Fail, with the message and what caused the failure. -/
  | fail (message : String) (cause : Option String)
  deriving DecidableEq, Repr

/-- What options make the program do. -/
def Options.plan (o : Options) (entry : String → Entry) : Plan :=
  match o.inputFault? entry, o.locate with
  | some fault, _ => .fail fault.message none
  | none, some identifier =>
    match Location.read identifier with
    | .ok location => .show location.display
    | .error invalid => .fail s!"Cannot decode location {identifier}" (some invalid.message)
  | none, none => .feed o.settings o.input

/-- A text with four spaces before each of its lines. -/
def indent (text : String) : String :=
  "    " ++ String.ofList (text.toList.flatMap fun c =>
    if c = '\n' then ['\n', ' ', ' ', ' ', ' '] else [c])

/-- The report of a failure. -/
def failureReport (message : String) (cause : Option String) : String :=
  match cause with
  | none => s!"Error: {message}\n"
  | some cause => s!"Error: {message}\n\nCaused by:\n{indent cause}\n"

end TestTree.CommandLine
