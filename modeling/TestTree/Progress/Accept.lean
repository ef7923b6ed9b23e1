import TestTree.Json.Parser
import TestTree.Text.Split
import TestTree.Text.Utf8
import TestTree.Progress.Advance

/-! # Accepting console text

A text from the console is a report, or ordinary output, or a report with a mismatch. The runner
prints a banner directly after the JSON of a compiler report; if a text is not JSON as a whole, the
banner and all that follows it is left out and the rest is tried. Only a report changes the path. -/

namespace TestTree.Progress

/-- The banner after a compiler report. -/
def banner : String := "Compilation failed"

/-- The JSON value of a text or of what stands before the first banner in it, with what is logged.
-/
def readValue (text : List Char) : Option Json × List Log.Entry :=
  match Json.parse? text with
  | some v => (some v, [])
  | none =>
    match Text.cutFirst banner.toList text with
    | none => (none, [])
    | some (front, _) =>
      (Json.parse? front, [Log.debug "Dropping plaintext after JSON"
        [("offset", Log.count (Text.Utf8.encode front).length)]])

/-- What a text turns out to be. -/
inductive Outcome where
  /-- Ordinary output. -/
  | console
  /-- A report, with its events. -/
  | report (events : List Event)
  /-- A report with a mismatch. -/
  | malformed (m : Json.Mismatch)

/-- The outcome of a text, the path after it, and what is logged. -/
structure Step where
  outcome : Outcome
  path : Path
  log : List Log.Entry

/-- A JSON value that comes after a test. -/
def acceptValue (current : Path) (v : Json) : Step :=
  match Report.read v with
  | .ok (some report) =>
    ⟨.report (advance current report).1, (advance current report).2, notes current report⟩
  | .ok none =>
    ⟨.console, current, [Log.debug "Ignoring JSON without a known discriminator" []]⟩
  | .error m => ⟨.malformed m, current, []⟩

/-- A text that comes after a test. -/
def accept (current : Path) (text : List Char) : Step :=
  match readValue text with
  | (some v, log) =>
    let step := acceptValue current v
    { step with log := log ++ step.log }
  | (none, log) => ⟨.console, current, log⟩

/-- The steps of several texts, one after the other. -/
def acceptAll (current : Path) : List String → List Step
  | [] => []
  | text :: rest =>
    let step := accept current text.toList
    step :: acceptAll step.path rest

end TestTree.Progress
