import TestTree.CommandLine.Plan

/-! # The program

Reads arguments and environment, and does what the plan says: the output of a runner is read line by
line and each line is answered at once, so that a test console shows a test as soon as it has run.
Log entries go to standard error. -/

namespace TestTree.Main

open CommandLine

/-- What the program says about itself when asked for help. -/
def helpText : String :=
  "Turns the JSON report of a test runner into the events of a test tree.\n\n" ++
  "  -f, --format FORMAT   write events as teamcity (the default) or json\n" ++
  "  -i, --input FILE      read the report from a file\n" ++
  "      --no-passthrough  drop the lines that are no reports\n" ++
  "  -v, --verbose         log more\n" ++
  "  -q, --quiet           log less\n" ++
  "  -h, --help            show this text\n" ++
  "  -V, --version         show the version\n\n" ++
  "  locate IDENTIFIER     show the place that a location identifier names\n"

/-- What the program says about itself when asked for its version. -/
def versionText : String := "test-tree 0.1.0\n"

/-- What a file name stands for. -/
def entryOf (name : String) : IO Entry := do
  try
    let info ← (← IO.FS.realPath name).metadata
    return match info.type with
      | .file => .file
      | _ => .other
  catch _ => return .missing

/-- Writes the entries of a log that matter enough. -/
def writeLog (level : Log.Level) (log : List Log.Entry) : IO Unit := do
  let output ← IO.getStderr
  for entry in log do
    if entry.level.rank ≤ level.rank then
      let facts := String.join (entry.facts.map fun (name, value) => s!" {name}={value}")
      output.putStrLn s!"{entry.level.name} {entry.message}{facts}"

/-- The next line, given what has been read of it, the last byte first; none at the end. -/
partial def readLine (input : IO.FS.Stream) (read : List UInt8) : IO (Option Console.Line) := do
  match (← input.read 1).toList with
  | [] => return if read.isEmpty then none else some ⟨read.reverse, false⟩
  | b :: _ =>
    if b = Console.lineFeed then return some ⟨read.reverse, true⟩ else readLine input (b :: read)

/-- Answers all lines that follow a test. -/
partial def feedLines (o : Options) (input output : IO.FS.Stream) (current : Path)
    (stats : Console.Stats) : IO Console.Stats := do
  match ← readLine input [] with
  | none => return stats
  | some line =>
    let block := Console.blockOf o.settings current line.content
    writeLog o.level block.log
    output.write (ByteArray.mk block.output.toArray)
    output.flush
    feedLines o input output block.path (stats + block.stats)

/-- Answers the output of a runner. -/
def feed (o : Options) (name : Option String) : IO Unit := do
  let input ← match name with
    | some name => do
      writeLog o.level [Log.info "Reading runner output from file" [("path", name)]]
      pure (IO.FS.Stream.ofHandle (← IO.FS.Handle.mk name .read))
    | none => IO.getStdin
  let stats ← feedLines o input (← IO.getStdout) .root 0
  writeLog o.level [Console.summary stats,
    Log.debug "Input exhausted" [("lines", Log.count stats.lines)]]

/-- Reports a failure. -/
def fail (message : String) (cause : Option String) : IO UInt32 := do
  (← IO.getStderr).putStr (failureReport message cause)
  return 1

/-- Does what options ask for. -/
def execute (o : Options) : IO UInt32 := do
  let entry ← match o.input with
    | some name => entryOf name
    | none => pure .missing
  match o.plan fun _ => entry with
  | .show text => do
    (← IO.getStdout).putStrLn text
    return 0
  | .feed _ input =>
    try
      feed o input
      return 0
    catch e => fail s!"I/O error: {e}" none
  | .fail message cause => fail message cause

/-- Reports why a command line gives no options. -/
def explain (usage : Usage) : IO UInt32 := do
  match usage with
  | .displayHelp => (← IO.getStdout).putStr helpText
  | .displayVersion => (← IO.getStdout).putStr versionText
  | _ => (← IO.getStderr).putStr s!"error: {usage.name}\n\n{helpText}"
  return usage.exitCode.toUInt32

/-- Reads the arguments and the environment, and does what they ask for. -/
def start (arguments : List String) : IO UInt32 := do
  let format ← IO.getEnv formatVariable
  let input ← IO.getEnv inputVariable
  let environment (name : String) : Option String :=
    if name = formatVariable then format else if name = inputVariable then input else none
  match parse arguments environment with
  | .ok o => execute o
  | .error usage => explain usage

end TestTree.Main

/-- The entry of the program. -/
def main (arguments : List String) : IO UInt32 := TestTree.Main.start arguments
