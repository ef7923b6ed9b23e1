import TestTree.Proofs.Report.Compile
import TestTree.Proofs.Report.Failure
import TestTree.Proofs.Report.Runner

/-! # Reading back reports

The readers take more than one form of a record: a status may be an object, a duration a text, a
record a sequence, other values of metadata become texts, and what is no file is left out. Writing
settles on one form, and that form is read as the same record again.

* `readDuration_ofNat`, `Status.read_name`, `RunStart.reads_toMembers`: what the runner tells is
  read back in any case, except for the failures of a test. Those are kept as they were given
  (`TestCompleted.schema_ensures`).
* `ensures_read`: a report that was read is read back, with its members in any order.
* `reports_read_back`: this holds of reports, failures and diagnostics, as they are written and with
  all members put in order, which is what becomes of them as JSON values. -/

namespace TestTree.Report

open Json (Arrangement Ensures readAny)
open Json.Schema (ensures_seq ensures_map ensures_required ensures_defaulted readMembers_eq_ok_iff)

variable {arrange : Json → Json} {Settled : Json → Prop}

section Arranged

variable (ha : Arrangement arrange Settled)
include ha

/-! ### Records of a runner -/

theorem readText_ofText? (text : Option String) :
    readText (arrange (.ofText? text)) = .ok text := by
  cases text with
  | none => rw [Json.ofText?, ha.null, readText]
  | some s => rw [Json.ofText?, ha.string, readText]

theorem readFiles_strings (files : List String) :
    readFiles (arrange (.array (files.map .string))) = .ok files := by
  have hs : arrange ∘ Json.string = Json.string := funext ha.string
  rw [ha.array, List.map_map, hs, readFiles]
  congr 1
  induction files with
  | nil => rfl
  | cons file rest ih => rw [List.map_cons, List.filterMap_cons, ih]

theorem Status.read_name (status : Status) :
    Status.read (arrange (.string status.name)) = .ok status := by
  rw [ha.string]
  exact read_eq_ok_iff.mpr (.name status)

theorem readDuration_ofNat (d : UInt64) : readDuration (arrange (.ofNat d.toNat)) = .ok d := by
  rw [Json.ofNat, ha.number]
  exact readDuration_eq_ok_iff.mpr (.number d)

theorem RunStart.reads_toMembers (start : RunStart) :
    RunStart.schema.Reads (fun key => (Json.Members.find? key
      (("event", .string "runStart") :: start.toMembers)).map arrange) start := by
  obtain ⟨testCount, fuzzRuns, initialSeed, paths⟩ := start
  refine .seq (.seq (.seq (.map ?testCount) ?fuzzRuns) ?initialSeed) ?paths
  case testCount => exact .member rfl (readText_ofText? ha testCount)
  case fuzzRuns => exact .member rfl (readText_ofText? ha fuzzRuns)
  case initialSeed => exact .member rfl (readText_ofText? ha initialSeed)
  case paths => exact .member rfl (readFiles_strings ha paths)

theorem RunComplete.reads_toMembers (complete : RunComplete) :
    RunComplete.schema.Reads (fun key => (Json.Members.find? key
      (("event", .string "runComplete") :: complete.toMembers)).map arrange) complete := by
  obtain ⟨passed, failed, duration, paths, autoFail⟩ := complete
  refine .seq (.seq (.seq (.seq (.map ?passed) ?failed) ?duration) ?paths) ?autoFail
  case passed => exact .member rfl (readText_ofText? ha passed)
  case failed => exact .member rfl (readText_ofText? ha failed)
  case duration => exact .member rfl (readText_ofText? ha duration)
  case paths => exact .member rfl (readFiles_strings ha paths)
  case autoFail => exact .member rfl (readText_ofText? ha autoFail)

theorem ensures_readFailures :
    Ensures Settled (Json.readList readAny) fun vs =>
      Json.readList readAny (arrange (.array vs)) = .ok vs := by
  have hany : Ensures Settled readAny fun v => readAny (arrange (id v)) = .ok v :=
    fun v w hv hw => ha.read_kept hv hw (Except.ok.inj hw).symm
  intro v vs hv hr
  have hread := ha.readList (Json.ensures_readList ha.hereditary hany v vs hv hr)
  rwa [List.map_id] at hread

theorem TestCompleted.schema_ensures :
    TestCompleted.schema.Ensures Settled fun t =>
      Json.readList readAny (arrange (.array t.failures)) = .ok t.failures := by
  have hnone : Json.readList readAny (arrange (.array [])) = .ok [] := by
    rw [ha.array]
    rfl
  refine ensures_seq (ensures_seq (ensures_seq (ensures_map
    (ensures_required (Json.ensures_trivial _ _)) ?_) (ensures_required (Json.ensures_trivial _ _)))
    (ensures_defaulted (ensures_readFailures ha) hnone))
    (ensures_defaulted (Json.ensures_trivial _ _) trivial)
  intro status _ labels _ failures hf duration _
  exact hf

theorem TestCompleted.reads_toMembers {t : TestCompleted}
    (h : Json.readList readAny (arrange (.array t.failures)) = .ok t.failures) :
    TestCompleted.schema.Reads (fun key => (Json.Members.find? key
      (("event", .string "testCompleted") :: t.toMembers)).map arrange) t := by
  obtain ⟨status, labels, failures, duration⟩ := t
  refine .seq (.seq (.seq (.map ?status) ?labels) ?failures) ?duration
  case status => exact .member rfl (Status.read_name ha status)
  case labels => exact .member rfl (ha.readList fun label _ => ha.readString label)
  case failures => exact .member rfl h
  case duration => exact .member rfl (readDuration_ofNat ha duration)

/-! ### Reports -/

/-- An object is read by what is found under its keys. -/
theorem read_object {members : Json.Members} (hk : (members.map Prod.fst).Nodup)
    {r : Option Report} (h : readMembers (fun key => (members.find? key).map arrange) = .ok r) :
    read (arrange (.object members)) = .ok r := by
  obtain ⟨arranged, he, hf⟩ := ha.object hk
  rw [he, read, funext hf]
  exact h

theorem read_runnerObject {name : String} {tag : RunnerTag} {members : Json.Members}
    {r : RunnerRecord} (hk : ((("event", Json.string name) :: members).map Prod.fst).Nodup)
    (htag : RunnerTag.ofName? name = some tag) (hm : members.find? "type" = none)
    (h : RunnerRecord.readMembers tag (fun key =>
      (Json.Members.find? key (("event", .string name) :: members)).map arrange) = .ok r) :
    read (arrange (.object (("event", .string name) :: members))) = .ok (some (.runner r)) := by
  have htype : (Json.Members.find? "type" (("event", Json.string name) :: members)).map arrange =
      none := by
    rw [Json.Members.find?, if_neg (by decide), hm, Option.map_none]
  have hevent : (Json.Members.find? "event" (("event", Json.string name) :: members)).map arrange =
      some (.string name) := by
    rw [Json.Members.find?, if_pos rfl, Option.map_some, ha.string]
  refine read_object ha hk ?_
  simp only [readMembers, htype, hevent, htag, h, Except.map]

theorem read_compilerObject {name : String} {tag : CompilerTag} {members : Json.Members}
    {r : CompileReport} (hk : ((("type", Json.string name) :: members).map Prod.fst).Nodup)
    (htag : CompilerTag.ofName? name = some tag)
    (h : CompileReport.readMembers tag (fun key =>
      (Json.Members.find? key (("type", .string name) :: members)).map arrange) = .ok r) :
    read (arrange (.object (("type", .string name) :: members))) = .ok (some (.compiler r)) := by
  have htype : (Json.Members.find? "type" (("type", Json.string name) :: members)).map arrange =
      some (.string name) := by
    rw [Json.Members.find?, if_pos rfl, Option.map_some, ha.string]
  refine read_object ha hk ?_
  simp only [readMembers, htype, htag, h, Except.map]

theorem RunnerRecord.read_toJson {find? : String → Option Json}
    (hg : ∀ key v, find? key = some v → Settled v) {tag : RunnerTag} {r : RunnerRecord}
    (h : RunnerRecord.readMembers tag find? = .ok r) :
    read (arrange r.toJson) = .ok (some (.runner r)) := by
  cases tag with
  | runStart =>
    obtain ⟨start, -, rfl⟩ := Json.exists_of_map_eq_ok h
    have hr := readMembers_eq_ok_iff.mpr (RunStart.reads_toMembers ha start)
    exact read_runnerObject ha (by simp [RunStart.toMembers]) rfl rfl
      (congrArg (Except.map RunnerRecord.runStart) hr)
  | runComplete =>
    obtain ⟨complete, -, rfl⟩ := Json.exists_of_map_eq_ok h
    have hr := readMembers_eq_ok_iff.mpr (RunComplete.reads_toMembers ha complete)
    exact read_runnerObject ha (by simp [RunComplete.toMembers]) rfl rfl
      (congrArg (Except.map RunnerRecord.runComplete) hr)
  | testCompleted =>
    -- the failures of a test are the only part that is kept as it was given
    obtain ⟨t, ht, rfl⟩ := Json.exists_of_map_eq_ok h
    have hf := (TestCompleted.schema_ensures ha).readMembers hg ht
    have hr := readMembers_eq_ok_iff.mpr (TestCompleted.reads_toMembers ha hf)
    exact read_runnerObject ha (by simp [TestCompleted.toMembers]) rfl rfl
      (congrArg (Except.map RunnerRecord.testCompleted) hr)

theorem CompileReport.read_toJson {find? : String → Option Json}
    (hg : ∀ key v, find? key = some v → Settled v) {tag : CompilerTag} {r : CompileReport}
    (h : CompileReport.readMembers tag find? = .ok r) :
    read (arrange r.toJson) = .ok (some (.compiler r)) := by
  cases tag with
  | compileErrors =>
    obtain ⟨errors, hs, rfl⟩ := Json.exists_of_map_eq_ok h
    have he := (modulesSchema_ensures ha).readMembers hg hs
    have hr := readMembers_eq_ok_iff.mpr (modulesSchema_reads he)
    exact read_compilerObject ha (by simp) rfl (congrArg (Except.map CompileReport.modules) hr)
  | error =>
    obtain ⟨e, hs, rfl⟩ := Json.exists_of_map_eq_ok h
    have hm := (GeneralProblem.schema_ensures ha).readMembers hg hs
    have hr := readMembers_eq_ok_iff.mpr (GeneralProblem.reads_toMembers ha hm)
    exact read_compilerObject ha (by simp [GeneralProblem.toMembers]) rfl
      (congrArg (Except.map CompileReport.general) hr)

/-- **A report** is read back if it was read before. -/
theorem ensures_read :
    Ensures Settled read fun r? => ∀ r ∈ r?, read (arrange r.toJson) = .ok (some r) := by
  intro v r? hv h r hr
  obtain rfl := Option.mem_def.mp hr
  obtain ⟨members, rfl, hc⟩ := of_read_eq_ok h
  have hg := ha.hereditary.member hv
  rcases hc with ⟨-, tag, c, -, -, hc, rfl⟩ | ⟨-, tag, c, -, -, hc, rfl⟩
  · exact CompileReport.read_toJson ha hg hc
  · exact RunnerRecord.read_toJson ha hg hc

end Arranged

/-- **Read-back.** A report that was read, a failure that was read and any diagnostic are written
as what reads as the same again, also with all members in order if they were in order before. -/
theorem reports_read_back :
    (∀ v r, read v = .ok (some r) → read r.toJson = .ok (some r) ∧
      (v.normalize = v → read r.toJson.normalize = .ok (some r))) ∧
    (∀ v f, Failure.read v = .ok f → Failure.read f.toJson = .ok f ∧
      (v.normalize = v → Failure.read f.toJson.normalize = .ok f)) ∧
    ∀ d : Diagnostic, Diagnostic.read d.toJson = .ok d ∧
      Diagnostic.read d.toJson.normalize = .ok d := by
  have hid := Json.arrangement_id
  have hnormalize := Json.arrangement_normalize
  refine ⟨fun v r h => ⟨?_, fun hv => ?_⟩, fun v f h => ⟨?_, fun hv => ?_⟩, fun d => ⟨?_, ?_⟩⟩
  · exact ensures_read hid v (some r) trivial h r rfl
  · exact ensures_read hnormalize v (some r) hv h r rfl
  · exact Failure.ensures_read hid v f trivial h
  · exact Failure.ensures_read hnormalize v f hv h
  · exact Diagnostic.read_arrange_toJson hid d
  · exact Diagnostic.read_arrange_toJson hnormalize d

/-- A failure and its reason as sequences, with details of which no member is known. -/
def lenientFailure : Json :=
  .array [.string "3", .string "Not equal",
    .array [.string "custom", .object [("at", .array [.null])]]]

/-- A record with its status as an object and its duration as a text. -/
def lenientRecord : Json :=
  .object [("duration", .string " +007 "), ("event", .string "testCompleted"),
    ("failures", .array [lenientFailure]), ("labels", .array [.string "Main", .string "adds"]),
    ("status", .object [("fail", .null)])]

theorem lenientRecord_read_back :
    let failure := Failure.explained
      ⟨some (.string "3"), "Not equal", some ⟨"custom", .comparison none none none⟩⟩
    let record := Report.runner (.testCompleted ⟨.fail, ["Main", "adds"], [lenientFailure], 7⟩)
    read lenientRecord = .ok (some record) ∧ read record.toJson.normalize = .ok (some record) ∧
      Failure.read lenientFailure = .ok failure ∧
      Failure.read failure.toJson.normalize = .ok failure := by
  intro failure record
  have hrecord : read lenientRecord = .ok (some record) := rfl
  have hfailure : Failure.read lenientFailure = .ok failure := rfl
  refine ⟨hrecord, ?_, hfailure, ?_⟩
  · exact (reports_read_back.1 lenientRecord record hrecord).2 rfl
  · exact (reports_read_back.2.1 lenientFailure failure hfailure).2 rfl

end TestTree.Report
