import TestTree.Progress.Run

/-! # What a text is accepted as

`report?` says of a text on its own whether it is a report, and `advance` what the report does after
a test. With both `accept` is known (`accept_of_report?_eq_some`, `accept_of_report?_eq_none`), so
nothing that follows has to look into the reading of texts. -/

namespace TestTree.Progress

variable {text : List Char}

/-- A text that is read as no value is ordinary output. -/
theorem accept_of_readValue_eq_none (h : (readValue text).1 = none) (current : Path) :
    (accept current text).outcome = .console ∧ (accept current text).path = current := by
  unfold accept
  rcases hv : readValue text with ⟨v?, log⟩
  rw [hv] at h
  obtain rfl : v? = none := h
  exact ⟨rfl, rfl⟩

/-- The outcome of a text and the path after it depend on the value alone that it is read as. -/
theorem accept_congr {other : List Char} (h : (readValue text).1 = (readValue other).1)
    (current : Path) :
    (accept current text).outcome = (accept current other).outcome ∧
      (accept current text).path = (accept current other).path := by
  unfold accept
  rcases hv : readValue text with ⟨v?, log⟩
  rcases hw : readValue other with ⟨w?, log'⟩
  rw [hv, hw] at h
  obtain rfl : v? = w? := h
  cases v? <;> exact ⟨rfl, rfl⟩

/-- **A text is a report** if it is read as a value that is one. -/
theorem report?_eq_some_iff {report : Report} :
    report? text = some report ↔
      ∃ v, (readValue text).1 = some v ∧ Report.read v = .ok (some report) := by
  unfold report?
  rcases (readValue text).1 with - | v
  · simp
  · rcases hr : Report.read v with m | r? <;> simp [hr]

/-- **A report**: its events and the path after it are those of `advance`. -/
theorem accept_of_report?_eq_some {report : Report} (h : report? text = some report)
    (current : Path) :
    (accept current text).outcome = .report (advance current report).1 ∧
      (accept current text).path = (advance current report).2 := by
  obtain ⟨v, hv, hr⟩ := report?_eq_some_iff.mp h
  unfold accept
  rcases hread : readValue text with ⟨v?, log⟩
  rw [hread] at hv
  obtain rfl : v? = some v := hv
  simp [acceptValue, hr]

/-- **No report**: there are no events, and the path stays. -/
theorem accept_of_report?_eq_none (h : report? text = none) (current : Path) :
    (accept current text).outcome.events = [] ∧ (accept current text).path = current := by
  unfold report? at h
  unfold accept
  rcases hv : readValue text with ⟨v?, log⟩
  cases v? with
  | none => exact ⟨rfl, rfl⟩
  | some v =>
    simp only [hv, Option.map_some] at h
    simp only [acceptValue]
    split
    · next r hr => simp [hr] at h
    · exact ⟨rfl, rfl⟩
    · exact ⟨rfl, rfl⟩

/-- **Whether a text is accepted as a report** does not depend on the path. -/
theorem isReport_accept (text : List Char) (current : Path) :
    (accept current text).outcome.isReport = (report? text).isSome := by
  unfold report? accept
  rcases hv : readValue text with ⟨v?, log⟩
  cases v? with
  | none => rfl
  | some v =>
    simp only [Option.map_some, acceptValue]
    rcases Report.read v with m | r?
    · rfl
    · cases r? <;> rfl

theorem Outcome.events_of_not_isReport {outcome : Outcome} (h : outcome.isReport = false) :
    outcome.events = [] := by
  cases outcome with
  | report events => cases h
  | console => rfl
  | malformed m => rfl

theorem events_of_report?_eq_some {report : Report} (h : report? text = some report)
    (current : Path) : (accept current text).outcome.events = (advance current report).1 := by
  rw [(accept_of_report?_eq_some h current).1, Outcome.events]

/-- Ordinary output does not change the path. -/
theorem path_of_outcome_eq_console {current : Path} (h : (accept current text).outcome = .console) :
    (accept current text).path = current := by
  rcases hr : report? text with - | report
  · exact (accept_of_report?_eq_none hr current).2
  · rw [(accept_of_report?_eq_some hr current).1] at h
    cases h

/-- A console that follows a text starts anew with a run, and otherwise goes on. -/
theorem follow_eq_run (outline : Event.Outline) (events : List Event)
    (h : ∀ start, report? text ≠ some (.runner (.runStart start))) :
    follow outline text events = outline.run events := by
  unfold follow
  split
  · next start hs => exact absurd hs (h start)
  · rfl

end TestTree.Progress
