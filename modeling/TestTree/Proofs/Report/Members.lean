import TestTree.Proofs.Json.Agreement
import TestTree.Report.Basic

/-! # Members that reports look at

A report is known by its name, and each kind of report has members of its own
(`CompilerTag.members`, `RunnerTag.members`). Nothing else in an object counts: neither for the
report that is read nor for the mismatch that is found first if there are several.

* `readMembers_congr`: objects with the same values under `knownMembers` are read in the same way.
* `read_insert_of_notMem`: to set another member, or the runner's name in a report of the compiler,
  has no effect. -/

namespace TestTree.Report

open Json (respects_eq)
open Json.Schema (respects_seq respects_map respects_required respects_optional
  respects_defaulted)

/-- The members of a compiler report, without its name. -/
def CompilerTag.members : CompilerTag → List String
  | .compileErrors => ["errors"]
  | .error => ["path", "title", "message"]

/-- The members of a record of the runner, without its name. -/
def RunnerTag.members : RunnerTag → List String
  | .runStart => ["testCount", "fuzzRuns", "initialSeed", "paths"]
  | .runComplete => ["passed", "failed", "duration", "paths", "autoFail"]
  | .testCompleted => ["status", "labels", "failures", "duration"]

/-- **The members of all reports**, with those for their names. -/
def knownMembers : List String :=
  ["type", "event", "status", "labels", "failures", "duration", "testCount", "fuzzRuns",
    "initialSeed", "paths", "passed", "failed", "autoFail", "errors", "path", "title", "message"]

theorem CompilerTag.members_subset (tag : CompilerTag) : tag.members ⊆ knownMembers := by
  cases tag <;> decide

theorem RunnerTag.members_subset (tag : RunnerTag) : tag.members ⊆ knownMembers := by
  cases tag <;> decide

/-! ### Each kind of report -/

theorem RunStart.schema_respects :
    RunStart.schema.Respects (RunnerTag.runStart.members) (fun _ => Eq) Eq := by
  refine respects_seq (respects_seq (respects_seq (respects_map
    (respects_defaulted (respects_eq _) rfl) ?_) (respects_defaulted (respects_eq _) rfl))
    (respects_defaulted (respects_eq _) rfl)) (respects_defaulted (respects_eq _) rfl)
  rintro _ _ rfl _ _ rfl _ _ rfl _ _ rfl
  rfl

theorem RunComplete.schema_respects :
    RunComplete.schema.Respects (RunnerTag.runComplete.members) (fun _ => Eq) Eq := by
  refine respects_seq (respects_seq (respects_seq (respects_seq (respects_map
    (respects_defaulted (respects_eq _) rfl) ?_) (respects_defaulted (respects_eq _) rfl))
    (respects_defaulted (respects_eq _) rfl)) (respects_defaulted (respects_eq _) rfl))
    (respects_defaulted (respects_eq _) rfl)
  rintro _ _ rfl _ _ rfl _ _ rfl _ _ rfl _ _ rfl
  rfl

theorem TestCompleted.schema_respects :
    TestCompleted.schema.Respects (RunnerTag.testCompleted.members) (fun _ => Eq) Eq := by
  refine respects_seq (respects_seq (respects_seq (respects_map
    (respects_required (respects_eq _)) ?_) (respects_required (respects_eq _)))
    (respects_defaulted (respects_eq _) rfl)) (respects_defaulted (respects_eq _) rfl)
  rintro _ _ rfl _ _ rfl _ _ rfl _ _ rfl
  rfl

theorem modulesSchema_respects :
    modulesSchema.Respects (CompilerTag.compileErrors.members) (fun _ => Eq) Eq :=
  respects_required (respects_eq _)

theorem GeneralProblem.schema_respects :
    GeneralProblem.schema.Respects (CompilerTag.error.members) (fun _ => Eq) Eq := by
  refine respects_seq (respects_seq (respects_map
    (respects_optional (respects_eq _) rfl) ?_) (respects_defaulted (respects_eq _) rfl))
    (respects_optional (respects_eq _) rfl)
  rintro _ _ rfl _ _ rfl _ _ rfl
  rfl

/-! ### Any report -/

variable {find? others? : String → Option Json}

theorem CompileReport.readMembers_congr {tag : CompilerTag}
    (h : ∀ name ∈ tag.members, find? name = others? name) :
    CompileReport.readMembers tag find? = CompileReport.readMembers tag others? := by
  cases tag with
  | compileErrors =>
    exact congrArg (Except.map _) (modulesSchema_respects.readMembers_congr h)
  | error => exact congrArg (Except.map _) (GeneralProblem.schema_respects.readMembers_congr h)

theorem RunnerRecord.readMembers_congr {tag : RunnerTag}
    (h : ∀ name ∈ tag.members, find? name = others? name) :
    RunnerRecord.readMembers tag find? = RunnerRecord.readMembers tag others? := by
  cases tag with
  | runStart => exact congrArg (Except.map _) (RunStart.schema_respects.readMembers_congr h)
  | runComplete => exact congrArg (Except.map _) (RunComplete.schema_respects.readMembers_congr h)
  | testCompleted =>
    exact congrArg (Except.map _) (TestCompleted.schema_respects.readMembers_congr h)

/-- A name of the compiler decides, and then no record of the runner is looked for. -/
theorem readMembers_of_compilerTag {name : String} {tag : CompilerTag}
    (htype : find? "type" = some (.string name)) (htag : CompilerTag.ofName? name = some tag) :
    readMembers find? =
      (CompileReport.readMembers tag find?).map fun r => some (.compiler r) := by
  rw [readMembers, htype]
  simp only [htag]

/-- **Reports look at no other members.** -/
theorem readMembers_congr (h : ∀ name ∈ knownMembers, find? name = others? name) :
    readMembers find? = readMembers others? := by
  have hcompiler (tag : CompilerTag) :
      CompileReport.readMembers tag find? = CompileReport.readMembers tag others? :=
    CompileReport.readMembers_congr fun name hname => h name (tag.members_subset hname)
  have hrunner (tag : RunnerTag) :
      RunnerRecord.readMembers tag find? = RunnerRecord.readMembers tag others? :=
    RunnerRecord.readMembers_congr fun name hname => h name (tag.members_subset hname)
  simp only [readMembers, h "type" (by decide), h "event" (by decide), hcompiler, hrunner]

/-- **Other members have no effect.** A member that no report has may be set to any value in any
object, and the name of a record of the runner may be set in any report of the compiler: the same
report is read, or none as before, or the same mismatch is found. -/
theorem read_insert_of_notMem (members : Json.Members) (value : Json) :
    (∀ key ∉ knownMembers,
        read (.object (members.insert key value)) = read (.object members)) ∧
      ∀ name tag, members.find? "type" = some (.string name) →
        CompilerTag.ofName? name = some tag →
          read (.object (members.insert "event" value)) = read (.object members) := by
  have hother {key name : String} (h : key ≠ name) :
      (members.insert key value).find? name = members.find? name := by
    rw [Json.Members.find?_insert, if_neg h]
  constructor
  · intro key hkey
    rw [read, read]
    refine readMembers_congr fun name hname => hother ?_
    rintro rfl
    exact hkey hname
  · intro name tag htype htag
    have hset : (members.insert "event" value).find? "type" = some (.string name) :=
      (hother (by decide)).trans htype
    rw [read, read, readMembers_of_compilerTag hset htag, readMembers_of_compilerTag htype htag]
    refine congrArg (Except.map _) (CompileReport.readMembers_congr fun member hm => hother ?_)
    rintro rfl
    cases tag <;> exact absurd hm (by decide)

/-- A record with several mismatches. -/
def faultyTest : Json.Members :=
  [("duration", .bool true), ("event", .string "testCompleted"), ("labels", .null)]

/-- A report of one problem that belongs to no module. -/
def brokenProject : Json.Members :=
  [("path", .string "elm.json"), ("title", .string "UNKNOWN PACKAGE"), ("type", .string "error")]

/-- The member that is set comes before all others in the order of keys, and is no text. -/
theorem faultyTest_insert :
    read (.object (faultyTest.insert "attempt" (.array []))) = .error (.noAlternative "Millis") ∧
      read (.object (brokenProject.insert "event" (.string "runStart"))) =
        .ok (some (.compiler (.general ⟨some "elm.json", "UNKNOWN PACKAGE", none⟩))) := by
  have hkey : "attempt" ∉ knownMembers := by decide
  exact ⟨(read_insert_of_notMem faultyTest (.array [])).1 "attempt" hkey,
    (read_insert_of_notMem brokenProject (.string "runStart")).2 "error" .error rfl rfl⟩

end TestTree.Report
