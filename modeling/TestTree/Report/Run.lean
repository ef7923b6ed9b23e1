import TestTree.Json.Schema

/-! # The start and the end of a run

The records `runStart` and `runComplete` carry numbers as texts and the files of the run. All of
that is for information only, so any JSON value is taken: what is not a text is kept as its JSON
text, and what is not a list of files is left out. These records have no mismatch (`readText_ok`,
`readFiles_ok`). -/

namespace TestTree.Report

/-- What is known when a run starts. -/
structure RunStart where
  testCount : Option String
  fuzzRuns : Option String
  initialSeed : Option String
  paths : List String
  deriving DecidableEq

/-- What is known when a run ends. -/
structure RunComplete where
  passed : Option String
  failed : Option String
  duration : Option String
  paths : List String
  /-- Why the run fails although every test passed. -/
  autoFail : Option String
  deriving DecidableEq

/-- A text, or the JSON text of another value. -/
def readText : Json.Reading (Option String)
  | .null => .ok none
  | .string s => .ok (some s)
  | v => .ok (some v.compact)

/-- The strings of a list. -/
def readFiles : Json.Reading (List String)
  | .array items => .ok (items.filterMap fun item => match item with
    | .string s => some s
    | _ => none)
  | _ => .ok []

theorem readText_ok (v : Json) : ∃ t, readText v = .ok t := by cases v <;> exact ⟨_, rfl⟩

theorem readFiles_ok (v : Json) : ∃ files, readFiles v = .ok files := by
  cases v <;> exact ⟨_, rfl⟩

open Json (Schema)

/-- The members of the record `runStart`. -/
def RunStart.schema : Schema RunStart :=
  RunStart.mk <$> .defaulted "testCount" readText none <*> .defaulted "fuzzRuns" readText none
    <*> .defaulted "initialSeed" readText none <*> .defaulted "paths" readFiles []

/-- The members of the record `runComplete`. -/
def RunComplete.schema : Schema RunComplete :=
  RunComplete.mk <$> .defaulted "passed" readText none <*> .defaulted "failed" readText none
    <*> .defaulted "duration" readText none <*> .defaulted "paths" readFiles []
    <*> .defaulted "autoFail" readText none

/-- The members of the record `runStart`, in order. -/
def RunStart.toMembers (r : RunStart) : Json.Members :=
  [("testCount", .ofText? r.testCount), ("fuzzRuns", .ofText? r.fuzzRuns),
    ("initialSeed", .ofText? r.initialSeed), ("paths", .array (r.paths.map .string))]

/-- The members of the record `runComplete`, in order. -/
def RunComplete.toMembers (r : RunComplete) : Json.Members :=
  [("passed", .ofText? r.passed), ("failed", .ofText? r.failed),
    ("duration", .ofText? r.duration), ("paths", .array (r.paths.map .string)),
    ("autoFail", .ofText? r.autoFail)]

end TestTree.Report
