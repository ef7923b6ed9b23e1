import TestTree.Report.Compile
import TestTree.Report.Failure
import TestTree.Report.Run
import TestTree.Report.Test

/-! # Reports

The records of a test runner and those of the compiler are told apart by a member of their own:
`event` for the runner and `type` for the compiler. A value with neither, or with a name that is not
known, is no report; that is not a mismatch. -/

namespace TestTree

/-- A record of the test runner. -/
inductive Report.RunnerRecord where
  | runStart (start : Report.RunStart)
  | runComplete (complete : Report.RunComplete)
  | testCompleted (test : Report.TestCompleted)

/-- A record of either kind. -/
inductive Report where
  | runner (r : Report.RunnerRecord)
  | compiler (r : Report.CompileReport)

namespace Report

/-! ### Reading -/

/-- The names of compiler reports. -/
inductive CompilerTag where
  | compileErrors
  | error
  deriving DecidableEq, Repr

/-- The names of runner records. -/
inductive RunnerTag where
  | runStart
  | runComplete
  | testCompleted
  deriving DecidableEq, Repr

/-- The compiler report with a name. -/
def CompilerTag.ofName? (name : String) : Option CompilerTag :=
  if name = "compile-errors" then some .compileErrors
  else if name = "error" then some .error
  else none

/-- The runner record with a name. -/
def RunnerTag.ofName? (name : String) : Option RunnerTag :=
  if name = "runStart" then some .runStart
  else if name = "runComplete" then some .runComplete
  else if name = "testCompleted" then some .testCompleted
  else none

/-- A compiler report as the members of an object. -/
def CompileReport.readMembers (tag : CompilerTag) (find? : String → Option Json) :
    Except Json.Mismatch CompileReport :=
  match tag with
  | .compileErrors => (modulesSchema.readMembers find?).map .modules
  | .error => (GeneralProblem.schema.readMembers find?).map .general

/-- A runner record as the members of an object. -/
def RunnerRecord.readMembers (tag : RunnerTag) (find? : String → Option Json) :
    Except Json.Mismatch RunnerRecord :=
  match tag with
  | .runStart => (RunStart.schema.readMembers find?).map .runStart
  | .runComplete => (RunComplete.schema.readMembers find?).map .runComplete
  | .testCompleted => (TestCompleted.schema.readMembers find?).map .testCompleted

/-- The report that an object is, given its members. A name in `type` decides first; a value there
that is no string counts as absent. -/
def readMembers (find? : String → Option Json) : Except Json.Mismatch (Option Report) :=
  match find? "type" with
  | some (.string name) =>
    match CompilerTag.ofName? name with
    | some tag => (CompileReport.readMembers tag find?).map fun r => some (.compiler r)
    | none => .ok none
  | _ =>
    match find? "event" with
    | some (.string name) =>
      match RunnerTag.ofName? name with
      | some tag => (RunnerRecord.readMembers tag find?).map fun r => some (.runner r)
      | none => .ok none
    | _ => .ok none

/-- The report that a value is, if it is one. -/
def read : Json → Except Json.Mismatch (Option Report)
  | .object members => readMembers (Json.Members.find? · members)
  | _ => .ok none

/-- The wording of a mismatch in a report. -/
def mismatchMessage (m : Json.Mismatch) : String := "JSON parse error: " ++ m.message .counted

/-! ### Writing -/

/-- A runner record as JSON, its name first. -/
def RunnerRecord.toJson : RunnerRecord → Json
  | .runStart start => .object (("event", .string "runStart") :: start.toMembers)
  | .runComplete complete => .object (("event", .string "runComplete") :: complete.toMembers)
  | .testCompleted test => .object (("event", .string "testCompleted") :: test.toMembers)

/-- A compiler report as JSON, its name first. -/
def CompileReport.toJson : CompileReport → Json
  | .modules errors =>
    .object [("type", .string "compile-errors"),
      ("errors", .array (errors.map ModuleProblems.toJson))]
  | .general error => .object (("type", .string "error") :: error.toMembers)

/-- A report as JSON. -/
def toJson : Report → Json
  | .runner r => r.toJson
  | .compiler r => r.toJson

end Report

end TestTree
