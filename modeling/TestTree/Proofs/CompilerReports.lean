import TestTree.Proofs.Report.Rewording
import TestTree.Proofs.RunnerRecords

/-! # Reports of the compiler between tests

A report of the compiler leaves the path as it is and has one failed test for each problem, in
order (`accept_compileReport`). Which text a message has is a matter of its elements, but nothing
else depends on them.

`compiler_reports`: both together, for all reports and all messages. -/

namespace TestTree.Progress

open Report (CompileReport CompilerTag Diagnostic ShownAs problemValues IsMessagePlace SameHeadings)

variable {text : List Char} {v : Json}

/-- **A report of the compiler** has the started and failed tests of its problems as events. -/
theorem accept_compileReport {c : CompileReport} (hv : (readValue text).1 = some v)
    (hr : Report.read v = .ok (some (.compiler c))) (current : Path) :
    (accept current text).outcome = .report (c.diagnostics.flatMap problemEvents) ∧
      (accept current text).path = current :=
  accept_of_report?_eq_some (report?_of_read hv hr) current

/-- **Compiler reports.** After any test a report of the compiler leaves the path as it is. For each
of its problems, in order, a test is started and at once fails with an error, under the title of the
problem and with the text of its message. To replace the array of a message by any other array has
no effect on whether a value is read as a report, nor on the titles and places of its problems. -/
theorem compiler_reports :
    (∀ (text : List Char) (v : Json) (c : CompileReport),
        (readValue text).1 = some v → Report.read v = .ok (some (.compiler c)) →
        ∃ (members : Json.Members) (name : String) (tag : CompilerTag) (ds : List Diagnostic),
          v = .object members ∧ members.find? "type" = some (.string name) ∧
            CompilerTag.ofName? name = some tag ∧
            List.Forall₂ ShownAs (problemValues members tag) ds ∧
            ∀ current : Path,
              (accept current text).path = current ∧
                (accept current text).outcome = .report (ds.flatMap fun d =>
                  [.testStarted d.title d.identifier?,
                    .testFailed d.title d.message none none true])) ∧
      ∀ (members : Json.Members) (place : Json.Place) (old new : List Json),
        IsMessagePlace place → Json.at? place (.object members) = some (.array old) →
          Json.Agree SameHeadings (Report.read (.object members))
            (Report.read (Json.replace (.array new) place (.object members))) := by
  refine ⟨fun text v c hv hr => ?_, fun members place old new hp h => ?_⟩
  · obtain ⟨members, rfl, hc⟩ := Report.of_read_eq_ok hr
    rcases hc with ⟨name, tag, c', hname, htag, hc, he⟩ | ⟨_, _, _, _, _, _, he⟩
    · obtain rfl : c = c' := Report.compiler.inj he
      refine ⟨members, name, tag, c.diagnostics, rfl, hname, htag, Report.diagnostics_shown hc, ?_⟩
      intro current
      obtain ⟨ho, hp⟩ := accept_compileReport hv hr current
      exact ⟨hp, ho⟩
    · cases he
  · exact Report.read_replace_message hp h

/-- A problem with styled text in its message, and with an element that has no text. -/
def styledProblem : Json :=
  .object [("message", .array [.string "A", .object [("string", .string "B")], .null])]

/-- A report on a module that is a sequence. -/
def compileErrors : Json.Members :=
  [("errors", .array [.array [.null, .null, .array [styledProblem]]]),
    ("type", .string "compile-errors")]

/-- The text of `compileErrors`. -/
def compileErrorsText : String :=
  "\x7b\"errors\":[[null,null,[\x7b\"message\":[\"A\",\x7b\"string\":\"B\"\x7d,null]\x7d]]]," ++
    "\"type\":\"compile-errors\"\x7d"

theorem compileErrors_shown :
    (∃ ds : List Diagnostic,
        List.Forall₂ ShownAs [styledProblem] ds ∧
          (accept .root compileErrorsText.toList).outcome = .report (ds.flatMap problemEvents)) ∧
      Json.Agree SameHeadings (Report.read (.object compileErrors))
        (Report.read (Json.replace (.array [.bool false])
          [.member "errors", .item 0, .item 2, .item 0, .member "message"]
          (.object compileErrors))) := by
  have hv : (readValue compileErrorsText.toList).1 = some (.object compileErrors) := rfl
  refine ⟨?_, ?_⟩
  · obtain ⟨members, name, tag, ds, he, hname, htag, hds, hacc⟩ :=
      compiler_reports.1 _ _ _ hv rfl
    obtain rfl := Json.object.inj he
    obtain rfl : name = "compile-errors" := (Json.string.inj (Option.some.inj hname)).symm
    obtain rfl : tag = .compileErrors := (Option.some.inj htag).symm
    exact ⟨ds, hds, (hacc .root).2⟩
  · exact compiler_reports.2 _ _ _ _ (.problem 0 0 (.inr rfl) (.inl rfl)) rfl

end TestTree.Progress
