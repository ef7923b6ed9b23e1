import TestTree.Proofs.Json.Schema
import TestTree.Report.Basic

/-! # The members of records

What a schema has read, it has read from its members one by one. Each record of a report has a lemma
that names these: `Position.of_reads` and so on. The other direction is `Schema.Reads.seq` with
`Schema.Reads.map`. -/

namespace TestTree.Report

open Json (readString readBool readAny)
open Json.Schema (required optional defaulted reads_seq reads_map)

variable {find? : String → Option Json}

/-! ### Compiler reports -/

theorem Position.of_reads {p : Position} (h : Position.schema.Reads find? p) :
    (required "line" readCoordinate).Reads find? p.line ∧
      (required "column" readCoordinate).Reads find? p.column := by
  obtain ⟨_, column, h1, hcolumn, rfl⟩ := reads_seq.mp h
  obtain ⟨line, hline, rfl⟩ := reads_map.mp h1
  exact ⟨hline, hcolumn⟩

theorem Region.of_reads {r : Region} (h : Region.schema.Reads find? r) :
    (required "start" (Position.schema.read "Position")).Reads find? r.start ∧
      (required "end" (Position.schema.read "Position")).Reads find? r.stop := by
  obtain ⟨_, stop, h1, hstop, rfl⟩ := reads_seq.mp h
  obtain ⟨start, hstart, rfl⟩ := reads_map.mp h1
  exact ⟨hstart, hstop⟩

/-- Only styled text is read by the members of a chunk. -/
theorem Chunk.of_reads {c : Chunk} (h : Chunk.schema.Reads find? c) :
    ∃ text bold underline color, c = .styled text bold underline color ∧
      (required "string" readString).Reads find? text ∧
      (defaulted "bold" readBool false).Reads find? bold ∧
      (defaulted "underline" readBool false).Reads find? underline ∧
      (optional "color" readString).Reads find? color := by
  obtain ⟨_, color, h3, hcolor, rfl⟩ := reads_seq.mp h
  obtain ⟨_, underline, h2, hunderline, rfl⟩ := reads_seq.mp h3
  obtain ⟨_, bold, h1, hbold, rfl⟩ := reads_seq.mp h2
  obtain ⟨text, htext, rfl⟩ := reads_map.mp h1
  exact ⟨text, bold, underline, color, rfl, htext, hbold, hunderline, hcolor⟩

theorem Problem.of_reads {p : Problem} (h : Problem.schema.Reads find? p) :
    (defaulted "title" readString "").Reads find? p.title ∧
      (optional "region" (Region.schema.read "Region")).Reads find? p.region ∧
      (optional "message" readMessage).Reads find? p.message := by
  obtain ⟨_, message, h2, hmessage, rfl⟩ := reads_seq.mp h
  obtain ⟨_, region, h1, hregion, rfl⟩ := reads_seq.mp h2
  obtain ⟨title, htitle, rfl⟩ := reads_map.mp h1
  exact ⟨htitle, hregion, hmessage⟩

theorem ModuleProblems.of_reads {m : ModuleProblems} (h : ModuleProblems.schema.Reads find? m) :
    (optional "path" readString).Reads find? m.path ∧
      (optional "name" readString).Reads find? m.name ∧
      (defaulted "problems" (Json.readList (Problem.schema.read "Problem")) []).Reads find?
        m.problems := by
  obtain ⟨_, problems, h2, hproblems, rfl⟩ := reads_seq.mp h
  obtain ⟨_, name, h1, hname, rfl⟩ := reads_seq.mp h2
  obtain ⟨path, hpath, rfl⟩ := reads_map.mp h1
  exact ⟨hpath, hname, hproblems⟩

theorem GeneralProblem.of_reads {e : GeneralProblem} (h : GeneralProblem.schema.Reads find? e) :
    (optional "path" readString).Reads find? e.path ∧
      (defaulted "title" readString "").Reads find? e.title ∧
      (optional "message" readMessage).Reads find? e.message := by
  obtain ⟨_, message, h2, hmessage, rfl⟩ := reads_seq.mp h
  obtain ⟨_, title, h1, htitle, rfl⟩ := reads_seq.mp h2
  obtain ⟨path, hpath, rfl⟩ := reads_map.mp h1
  exact ⟨hpath, htitle, hmessage⟩

/-! ### Failures -/

/-- Only a comparison is read by the members of details. -/
theorem Details.of_reads {d : Details} (h : Details.schema.Reads find? d) :
    ∃ actual expected expectation, d = .comparison actual expected expectation ∧
      (optional "actual" readAny).Reads find? actual ∧
      (optional "expected" readAny).Reads find? expected ∧
      (optional "comparison" readString).Reads find? expectation := by
  obtain ⟨_, expectation, h2, hexpectation, rfl⟩ := reads_seq.mp h
  obtain ⟨_, expected, h1, hexpected, rfl⟩ := reads_seq.mp h2
  obtain ⟨actual, hactual, rfl⟩ := reads_map.mp h1
  exact ⟨actual, expected, expectation, rfl, hactual, hexpected, hexpectation⟩

theorem Reason.of_reads {r : Reason} (h : Reason.schema.Reads find? r) :
    (required "type" readString).Reads find? r.kind ∧
      (required "data" Details.read).Reads find? r.details := by
  obtain ⟨_, details, h1, hdetails, rfl⟩ := reads_seq.mp h
  obtain ⟨kind, hkind, rfl⟩ := reads_map.mp h1
  exact ⟨hkind, hdetails⟩

theorem Explanation.of_reads {e : Explanation} (h : Explanation.schema.Reads find? e) :
    (optional "given" readAny).Reads find? e.given ∧
      (required "message" readString).Reads find? e.message ∧
      (optional "reason" (Reason.schema.read "FailureReason")).Reads find? e.reason := by
  obtain ⟨_, reason, h2, hreason, rfl⟩ := reads_seq.mp h
  obtain ⟨_, message, h1, hmessage, rfl⟩ := reads_seq.mp h2
  obtain ⟨given, hgiven, rfl⟩ := reads_map.mp h1
  exact ⟨hgiven, hmessage, hreason⟩

/-! ### Completed tests -/

theorem TestCompleted.of_reads {t : TestCompleted} (h : TestCompleted.schema.Reads find? t) :
    (required "status" Status.read).Reads find? t.status ∧
      (required "labels" (Json.readList readString)).Reads find? t.labels ∧
      (defaulted "failures" (Json.readList readAny) []).Reads find? t.failures ∧
      (defaulted "duration" readDuration 0).Reads find? t.duration := by
  obtain ⟨_, duration, h3, hduration, rfl⟩ := reads_seq.mp h
  obtain ⟨_, failures, h2, hfailures, rfl⟩ := reads_seq.mp h3
  obtain ⟨_, labels, h1, hlabels, rfl⟩ := reads_seq.mp h2
  obtain ⟨status, hstatus, rfl⟩ := reads_map.mp h1
  exact ⟨hstatus, hlabels, hfailures, hduration⟩

end TestTree.Report
