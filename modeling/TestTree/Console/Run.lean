import TestTree.Console.Feed

/-! # Runs line by line

What a run comes to, without the steps in which it reads and writes. A line takes part in the
progress of the tree only by its text, and only if it has one: `verdicts` says of each line what it
turns out to be, whatever is written. `blockOfLines` is the block of several lines, where each
starts from the path that the one before it left. -/

namespace TestTree.Console

/-! ### What lines turn out to be -/

/-- The text of a line, if its content is UTF-8. -/
def Line.text? (line : Line) : Option String :=
  match Text.Utf8.read line.content with
  | .ok text => some (String.ofList text)
  | .error _ => none

/-- The step of a line after a test. A line without a text is ordinary output. -/
def Line.step (current : Path) (line : Line) : Progress.Step :=
  match line.text? with
  | some text => Progress.accept current text.toList
  | none => ⟨.console, current, []⟩

/-- Lines, each with what it turns out to be. -/
def verdicts (current : Path) : List Line → List (Line × Progress.Outcome)
  | [] => []
  | line :: rest =>
    let step := line.step current
    (line, step.outcome) :: verdicts step.path rest

/-- The path after lines. -/
def pathOver (current : Path) : List Line → Path
  | [] => current
  | line :: rest => pathOver (line.step current).path rest

/-- What a line adds to the counts: it is counted as one of three, and its events are. -/
def Stats.ofOutcome : Progress.Outcome → Stats
  | .report events => ⟨1, events.length, 0, 0⟩
  | .console => ⟨0, 0, 1, 0⟩
  | .malformed _ => ⟨0, 0, 0, 1⟩

/-- The text of an event on a line. -/
def Format.line (format : Format) (event : Event) : List UInt8 :=
  Text.Utf8.encode (format.render event).toList ++ [lineFeed]

/-- The bytes that a line is answered with. -/
def Line.answer (settings : Settings) (line : Line) : Progress.Outcome → List UInt8
  | .report events => events.flatMap settings.format.line
  | .console | .malformed _ => if settings.passthrough then line.content ++ [lineFeed] else []

/-! ### Blocks of lines -/

/-- The block that does nothing. -/
def Block.empty (path : Path) : Block := ⟨[], 0, path, []⟩

/-- A block and then another one that starts from its path. -/
def Block.andThen (first second : Block) : Block where
  pieces := first.pieces ++ second.pieces
  stats := first.stats + second.stats
  path := second.path
  log := first.log ++ second.log

/-- The block of several lines, one after the other. -/
def blockOfLines (settings : Settings) (current : Path) : List Line → Block
  | [] => .empty current
  | line :: rest =>
    let block := blockOf settings current line.content
    block.andThen (blockOfLines settings block.path rest)

/-! ### Sources -/

/-- A source from which all can be read, with a writer that takes everything. -/
def Source.unfailing (input : List UInt8) : Source where
  input := input
  readFails := false
  room := none
  flushFails := false

/-- A line of a source is read in full: if reading fails, one without a line feed is not. -/
def Source.reads (source : Source) (line : Line) : Bool := line.terminated || !source.readFails

/-- The lines of a source that are read in full. -/
def Source.lines (source : Source) : List Line :=
  (Console.lines source.input).filter source.reads

/-- The fault that a run meets after all its lines, if any. -/
def Source.faultAtEnd (source : Source) : Option Fault :=
  if source.readFails then some .read
  else if source.flushFails then some .flush
  else none

/-- Runs one after the other, where each starts from the path that the one before it left. -/
def runAll (settings : Settings) (current : Path) : List Source → List Result
  | [] => []
  | source :: rest =>
    let result := run settings current source
    result :: runAll settings result.path rest

/-- The path after runs one after the other. -/
def pathAfter (current : Path) (results : List Result) : Path :=
  (results.getLast?.map (·.path)).getD current

end TestTree.Console
