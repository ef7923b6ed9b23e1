import TestTree.Event.Outline
import TestTree.Progress.Accept

/-! # Runs

Texts are accepted one after the other, and a console follows the events of each with an outline of
its own. The console learns from an accepted `runStart` that a new tree begins, and then has no open
suite; all else it learns from the events. -/

namespace TestTree.Progress

/-- The report that a text is, if it is one that reads. -/
def report? (text : List Char) : Option Report :=
  match (readValue text).1.map Report.read with
  | some (.ok report) => report
  | _ => none

/-- The events of an outcome. Only a report has events. -/
def Outcome.events : Outcome → List Event
  | .report events => events
  | .console | .malformed _ => []

/-- The outcome is a report. -/
def Outcome.isReport : Outcome → Bool
  | .report _ => true
  | .console | .malformed _ => false

/-- The path after several texts. -/
def pathAfter (current : Path) : List String → Path
  | [] => current
  | text :: rest => pathAfter (accept current text.toList).path rest

/-- The open suites after events of a text; none if one of them is refused. -/
def follow (outline : Event.Outline) (text : List Char) (events : List Event) :
    Option Event.Outline :=
  match report? text with
  | some (.runner (.runStart _)) => Event.Outline.run [] events
  | _ => outline.run events

/-- The open suites after several texts; none if some event is refused. -/
def followAll (current : Path) (outline : Event.Outline) : List String → Option Event.Outline
  | [] => some outline
  | text :: rest =>
    let step := accept current text.toList
    (follow outline text.toList step.outcome.events).bind (followAll step.path · rest)

end TestTree.Progress
