import TestTree.Event.Basic
import TestTree.Location
import TestTree.Log
import TestTree.Report.Basic

/-! # From reports to events

A runner reports every test with its full path, one after the other. The tree is built by keeping
the path of the last test: before a test is reported, the suites that it is no longer in are
finished and those that it is newly in are started (`move`). Which suites are open is never stored;
they are the suites around the last test. `advance` gives the events of a report and the path after
it, and `notes` what is logged on the way. -/

namespace TestTree.Progress

open Report

/-! ### Suites -/

/-- The event that starts a suite. -/
def suiteStarted (suite : Path) : Event :=
  .suiteStarted suite.name (Location.suiteIdentifier suite)

/-- The event that finishes a suite. -/
def suiteFinished (suite : Path) : Event := .suiteFinished suite.name

/-- The events between a test and the next one. -/
def move (source target : Path) : List Event :=
  (source.closing target).map suiteFinished ++ (source.opening target).map suiteStarted

/-! ### Tests -/

/-- The path of a test. A todo has a leaf of its own. -/
def testPath (t : TestCompleted) : Path :=
  match t.status with
  | .todo => (Path.ofLabels t.labels).child "todo"
  | .pass | .fail => Path.ofLabels t.labels

/-- The first failure of a test, if there is one that reads as a failure. -/
def firstFailure? (t : TestCompleted) : Option Failure :=
  match t.failures.head?.map Failure.read with
  | some (.ok failure) => some failure
  | _ => none

/-- The event for a failed test. Without a failure that can be read all failures are shown as JSON.
-/
def testFailed (name : String) (t : TestCompleted) : Event :=
  match firstFailure? t with
  | some (.simple message) => .testFailed name message none none false
  | some (.explained failure) =>
    .testFailed name failure.message failure.compared.1 failure.compared.2 false
  | none => .testFailed name (Json.array t.failures).pretty none none false

/-- The reason for a todo, blank if none is given. -/
def todoComment (t : TestCompleted) : String :=
  match firstFailure? t with
  | some failure => failure.message
  | none => ""

/-- The events for a test at a path, once its suites are open. -/
def testEvents (path : Path) (t : TestCompleted) : List Event :=
  let started := Event.testStarted path.name (some (Location.testIdentifier path))
  match t.status with
  | .pass => [started, .testFinished path.name t.duration]
  | .fail => [started, testFailed path.name t]
  | .todo => [.testIgnored path.name (todoComment t)]

/-! ### Compiler problems -/

/-- The events for a problem: a test that fails. -/
def problemEvents (d : Diagnostic) : List Event :=
  [.testStarted d.title d.identifier?, .testFailed d.title d.message none none true]

/-! ### Reports -/

/-- The events of a report that comes after a test, and the path after it. -/
def advance (current : Path) : Report → List Event × Path
  | .runner (.runStart _) => ([], .root)
  | .runner (.runComplete _) => ((current.closing .root).map suiteFinished, .root)
  | .runner (.testCompleted t) =>
    (move current (testPath t) ++ testEvents (testPath t) t, testPath t)
  | .compiler r => (r.diagnostics.flatMap problemEvents, current)

/-- A fact that may not be known. -/
def orUnknown (fact : Option String) : String := fact.getD "?"

/-- What is logged for a report. -/
def notes (current : Path) : Report → List Log.Entry
  | .runner (.runStart r) =>
    [Log.info "Starting elm-test run"
      [("test_count", orUnknown r.testCount), ("fuzz_runs", orUnknown r.fuzzRuns),
        ("seed", orUnknown r.initialSeed)]]
  | .runner (.runComplete r) =>
    Log.info "Completed elm-test run"
      [("passed", orUnknown r.passed), ("failed", orUnknown r.failed),
        ("duration_ms", orUnknown r.duration)] ::
      match r.autoFail with
      | some reason => [Log.warn "Run failed automatically" [("reason", reason)]]
      | none => []
  | .runner (.testCompleted t) =>
    let target := testPath t
    Log.debug "Moved in test tree"
      [("from", current.display), ("to", target.display),
        ("suites", Log.count (move current target).length)] ::
      match t.status, firstFailure? t with
      | .fail, none =>
        [Log.warn "Unrecognized failure format, reporting it raw" [("test", target.name)]]
      | _, _ => []
  | .compiler r =>
    [Log.warn "Tests failed to compile" [("problems", Log.count r.diagnostics.length)]]

end TestTree.Progress
