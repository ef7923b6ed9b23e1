import TestTree.Console.Line
import TestTree.Event.Record
import TestTree.Event.ServiceMessage
import TestTree.Progress.Accept

/-! # Feeding a test console

A feed takes the output of a runner line by line and writes what a test console shows: the events of
each report, one line each, and in their place the lines that are no reports, if they are passed
through. A line that is not UTF-8 is no report.

`blockOf` says what becomes of one line. `run` reads a stream and answers each line as soon as it
has been read. It stops at the first fault: of the writer, which has room for a number of bytes and
refuses the rest, of the reader at the end of its input, or of the flush after that. What was
written until then stays written, and the path of the last test is kept for the next run. -/

namespace TestTree.Console

/-- How events are written. -/
inductive Format where
  | teamcity
  | json
  deriving DecidableEq, Repr

/-- What a feed writes. -/
structure Settings where
  format : Format
  /-- Lines that are no reports are written too. -/
  passthrough : Bool
  deriving DecidableEq, Repr

/-- The text of an event, on one line. -/
def Format.render (format : Format) (event : Event) : String :=
  match format with
  | .teamcity => event.toServiceMessage.write
  | .json => event.toJson.compact

/-- What was counted during a run. -/
@[ext]
structure Stats where
  /-- Lines that are reports. -/
  records : Nat
  /-- Events written. -/
  events : Nat
  /-- Lines that are ordinary output. -/
  passthrough : Nat
  /-- Lines that are reports with a mismatch. -/
  rejected : Nat
  deriving DecidableEq, Repr

instance : Zero Stats := ⟨⟨0, 0, 0, 0⟩⟩

instance : Add Stats where
  add a b := ⟨a.records + b.records, a.events + b.events, a.passthrough + b.passthrough,
    a.rejected + b.rejected⟩

@[simp] theorem Stats.records_add (s t : Stats) : (s + t).records = s.records + t.records := rfl

@[simp] theorem Stats.events_add (s t : Stats) : (s + t).events = s.events + t.events := rfl

@[simp] theorem Stats.passthrough_add (s t : Stats) :
    (s + t).passthrough = s.passthrough + t.passthrough := rfl

@[simp] theorem Stats.rejected_add (s t : Stats) : (s + t).rejected = s.rejected + t.rejected := rfl

theorem Stats.zero_add (s : Stats) : 0 + s = s :=
  Stats.ext (Nat.zero_add _) (Nat.zero_add _) (Nat.zero_add _) (Nat.zero_add _)

theorem Stats.add_zero (s : Stats) : s + 0 = s := rfl

theorem Stats.add_assoc (s t u : Stats) : s + t + u = s + (t + u) :=
  Stats.ext (Nat.add_assoc ..) (Nat.add_assoc ..) (Nat.add_assoc ..) (Nat.add_assoc ..)

/-- The number of lines that were counted. -/
def Stats.lines (s : Stats) : Nat := s.records + s.passthrough + s.rejected

/-! ### One line -/

/-- What a line gives: the pieces to write, what it adds to the counts, the path after it, and what
is logged. -/
structure Block where
  pieces : List (List UInt8)
  stats : Stats
  path : Path
  log : List Log.Entry

/-- The bytes of a block. -/
def Block.output (block : Block) : List UInt8 := block.pieces.flatten

/-- The pieces of a line that is written: its content and a line feed. -/
def terminate (content : List UInt8) : List (List UInt8) := [content, [lineFeed]]

/-- The pieces for the content of a line that is no report. -/
def echo (settings : Settings) (content : List UInt8) : List (List UInt8) :=
  if settings.passthrough then terminate content else []

/-- What is logged for the content of a line that is no report. -/
def echoLog (settings : Settings) (content : List UInt8) : List Log.Entry :=
  if settings.passthrough then []
  else [Log.debug "Dropping console line" [("bytes", Log.count content.length)]]

/-- The pieces for events. -/
def renderAll (format : Format) (events : List Event) : List (List UInt8) :=
  events.flatMap fun event => terminate (Text.Utf8.encode (format.render event).toList)

/-- The block of a line with a text as its content, after a test. -/
def blockOfText (settings : Settings) (current : Path) (content : List UInt8) (text : List Char) :
    Block :=
  let step := Progress.accept current text
  match step.outcome with
  | .report events =>
    { pieces := renderAll settings.format events
      stats := ⟨1, events.length, 0, 0⟩
      path := step.path
      log := step.log }
  | .console =>
    { pieces := echo settings content
      stats := ⟨0, 0, 1, 0⟩
      path := step.path
      log := step.log ++ echoLog settings content }
  | .malformed m =>
    { pieces := echo settings content
      stats := ⟨0, 0, 0, 1⟩
      path := step.path
      log := step.log ++ Log.warn "Skipping malformed runner record"
        [("error", Report.mismatchMessage m)] :: echoLog settings content }

/-- The block of a line with a content, after a test. -/
def blockOf (settings : Settings) (current : Path) (content : List UInt8) : Block :=
  match Text.Utf8.read content with
  | .ok text => blockOfText settings current content text
  | .error fault =>
    { pieces := echo settings content
      stats := ⟨0, 0, 1, 0⟩
      path := current
      log := Log.debug "Passing through non UTF-8 line" [("error", fault.message)] ::
        echoLog settings content }

/-! ### Writing -/

/-- Where a feed writes to: what has been written, and for how many more bytes there is room, if
there is a limit. -/
structure Writer where
  written : List UInt8
  room : Option Nat

/-- Writes a piece. The part for which there is no room is refused. -/
def Writer.write (w : Writer) (piece : List UInt8) : Except Writer Writer :=
  match w.room with
  | none => .ok ⟨w.written ++ piece, none⟩
  | some n =>
    if piece.length ≤ n then .ok ⟨w.written ++ piece, some (n - piece.length)⟩
    else .error ⟨w.written ++ piece.take n, some 0⟩

/-- Writes pieces one after the other, up to the first that is refused. -/
def Writer.writeAll (w : Writer) (pieces : List (List UInt8)) : Except Writer Writer :=
  pieces.foldlM Writer.write w

/-! ### A stream -/

/-- What fails during a run. -/
inductive Fault where
  | read
  | write
  | flush
  deriving DecidableEq, Repr

/-- The wording of a fault. -/
def Fault.message : Fault → String
  | .read => "I/O error: read refused"
  | .write => "I/O error: write refused"
  | .flush => "I/O error: flush refused"

/-- A stream to read, and where reading or writing fails. -/
structure Source where
  input : List UInt8
  /-- Reading fails after the input, so that a line without a line feed is lost. -/
  readFails : Bool
  /-- The number of bytes that can be written. -/
  room : Option Nat
  flushFails : Bool

/-- What a run leaves behind. The counts are told only if there was no fault. -/
structure Result where
  output : List UInt8
  stats : Stats
  path : Path
  log : List Log.Entry
  fault : Option Fault

/-- How far a run has come. -/
structure Session where
  writer : Writer
  stats : Stats
  path : Path
  log : List Log.Entry

/-- A session after a block, with the writer as it stands then. -/
def Session.after (s : Session) (block : Block) (writer : Writer) : Session :=
  ⟨writer, s.stats + block.stats, block.path, s.log ++ block.log⟩

/-- Answers a line: its report moves the path, and then its pieces are written. -/
def Session.answer (settings : Settings) (s : Session) (line : Line) : Except Session Session :=
  let block := blockOf settings s.path line.content
  match s.writer.writeAll block.pieces with
  | .ok writer => .ok (s.after block writer)
  | .error writer => .error (s.after block writer)

/-- Ends a session, with a fault or without. -/
def Session.stop (s : Session) (fault : Option Fault) : Result :=
  ⟨s.writer.written, s.stats, s.path, s.log, fault⟩

/-- What is logged at the end of a run. -/
def summary (s : Stats) : Log.Entry :=
  Log.info "Finished translating runner output"
    [("records", Log.count s.records), ("events", Log.count s.events),
      ("passthrough", Log.count s.passthrough),
      ("rejected", Log.count s.rejected)]

/-- Flushes the output when all lines are answered. -/
def Session.flush (source : Source) (s : Session) : Result :=
  if source.flushFails then s.stop (some .flush)
  else { s with log := s.log ++ [summary s.stats] }.stop none

/-- Comes to the end of the input, where the line that has begun is answered unless it is empty. -/
def Session.finish (settings : Settings) (source : Source) (s : Session) (begun : List UInt8) :
    Result :=
  if source.readFails then s.stop (some .read)
  else if begun.isEmpty then s.flush source
  else
    match s.answer settings ⟨begun.reverse, false⟩ with
    | .ok s => s.flush source
    | .error s => s.stop (some .write)

/-- Reads bytes that follow those of the line that has begun, the last one of it first. -/
def Session.read (settings : Settings) (source : Source) (s : Session) (begun : List UInt8) :
    List UInt8 → Result
  | [] => s.finish settings source begun
  | b :: rest =>
    if b = lineFeed then
      match s.answer settings ⟨begun.reverse, true⟩ with
      | .ok s => s.read settings source [] rest
      | .error s => s.stop (some .write)
    else s.read settings source (b :: begun) rest

/-- The session with which a run over a source starts. -/
def Session.start (current : Path) (source : Source) : Session :=
  ⟨⟨[], source.room⟩, 0, current, []⟩

/-- A run over a source, after a test. -/
def run (settings : Settings) (current : Path) (source : Source) : Result :=
  (Session.start current source).read settings source [] source.input

end TestTree.Console
