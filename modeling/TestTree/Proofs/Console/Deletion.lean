import TestTree.Proofs.Console.Run

/-! # Lines that can be left out

The tree is built from the events of the runner alone. Ordinary output, reports with a mismatch,
lines that are no text and problems of the compiler leave the path as it is (`path_step`), so that
leaving them out changes neither what any other line turns out to be nor the path at the end
(`verdicts_filter`). Of a feed that writes nothing but events the problems of the compiler are seen
as well, and all that is no report can be left out (`blockOfLines_filter`). `run_without_others`
says both. What a line is does not depend on the path (`isReport_step`), so it does not matter
whether lines are left out before a run or during it. -/

namespace TestTree.Console

variable {settings : Settings}

/-- The report that a line is, if it is one that reads. -/
def Line.report? (line : Line) : Option Report :=
  line.text?.bind fun text => Progress.report? text.toList

/-- A line that is a report. -/
def Line.isReport (line : Line) : Bool := line.report?.isSome

/-- A line that is an event of the runner. -/
def Line.isRunnerEvent (line : Line) : Bool :=
  match line.report? with
  | some (.runner _) => true
  | some (.compiler _) | none => false

/-! ### One line -/

/-- **Whether a line is a report** does not depend on the path. -/
theorem isReport_step (line : Line) (current : Path) :
    (line.step current).outcome.isReport = line.isReport := by
  unfold Line.step Line.isReport Line.report?
  rcases line.text? with - | text
  · rfl
  · exact Progress.isReport_accept text.toList current

/-- **A line that is no event of the runner** leaves the path as it is. -/
theorem path_step {line : Line} (h : line.isRunnerEvent = false) (current : Path) :
    (line.step current).path = current := by
  unfold Line.isRunnerEvent Line.report? at h
  unfold Line.step
  rcases ht : line.text? with - | text
  · rfl
  · simp only [ht, Option.bind_some] at h
    rcases hr : Progress.report? text.toList with - | ⟨r | r⟩
    · exact (Progress.accept_of_report?_eq_none hr current).2
    · rw [hr] at h
      cases h
    · exact (Progress.accept_of_report?_eq_some hr current).2

theorem not_isRunnerEvent_of_not_isReport {line : Line} (h : line.isReport = false) :
    line.isRunnerEvent = false := by
  unfold Line.isReport at h
  unfold Line.isRunnerEvent
  rcases hr : line.report? with - | r
  · rfl
  · rw [hr] at h
    cases h

theorem Stats.ofOutcome_of_not_isReport {outcome : Progress.Outcome}
    (h : outcome.isReport = false) :
    (ofOutcome outcome).records = 0 ∧ (ofOutcome outcome).events = 0 := by
  cases outcome with
  | report events => cases h
  | console => exact ⟨rfl, rfl⟩
  | malformed m => exact ⟨rfl, rfl⟩

/-- A line that is no report adds nothing to what is written, if other lines are dropped, and to the
counts of reports and events. -/
theorem blockOf_of_not_isReport (hp : settings.passthrough = false) {line : Line}
    (h : line.isReport = false) (current : Path) :
    let block := blockOf settings current line.content
    block.output = [] ∧ block.stats.records = 0 ∧ block.stats.events = 0 ∧
      block.path = current := by
  intro block
  obtain ⟨ho, hs, hpath⟩ := blockOf_eq settings current line
  have hr : (line.step current).outcome.isReport = false := (isReport_step line current).trans h
  obtain ⟨hrecords, hevents⟩ := Stats.ofOutcome_of_not_isReport hr
  refine ⟨?_, ?_, ?_, hpath.trans (path_step (not_isRunnerEvent_of_not_isReport h) current)⟩
  · rw [ho, answer_of_passthrough_eq_false hp, Progress.Outcome.events_of_not_isReport hr]
    rfl
  · rw [hs, hrecords]
  · rw [hs, hevents]

/-! ### All lines -/

/-- **Lines that leave the path as it is** can be left out: the others turn out to be what they
were, and the path at the end is the same. -/
theorem verdicts_filter {keep : Line → Bool}
    (h : ∀ line, keep line = false → ∀ current, (line.step current).path = current)
    (current : Path) (all : List Line) :
    verdicts current (all.filter keep) = (verdicts current all).filter (fun p => keep p.1) ∧
      pathOver current (all.filter keep) = pathOver current all := by
  induction all generalizing current with
  | nil => exact ⟨rfl, rfl⟩
  | cons line rest ih =>
    obtain ⟨iv, ip⟩ := ih (line.step current).path
    cases hk : keep line with
    | true =>
      simp only [List.filter_cons, verdicts, pathOver, hk, if_true]
      exact ⟨congrArg (_ :: ·) iv, ip⟩
    | false =>
      rw [h line hk current] at iv ip
      simp only [List.filter_cons, verdicts, pathOver, hk, h line hk current, Bool.false_eq_true,
        if_false]
      exact ⟨iv, ip⟩

/-- **Lines that are no reports** can be left out of what is fed, if they are dropped anyway. -/
theorem blockOfLines_filter (hp : settings.passthrough = false) (current : Path)
    (all : List Line) :
    let block := blockOfLines settings current all
    let kept := blockOfLines settings current (all.filter Line.isReport)
    kept.output = block.output ∧ kept.stats.records = block.stats.records ∧
      kept.stats.events = block.stats.events ∧ kept.path = block.path := by
  induction all generalizing current with
  | nil => exact ⟨rfl, rfl, rfl, rfl⟩
  | cons line rest ih =>
    intro block kept
    obtain ⟨io, ir, ie, ip⟩ := ih (blockOf settings current line.content).path
    have hblock : block = (blockOf settings current line.content).andThen
        (blockOfLines settings (blockOf settings current line.content).path rest) := rfl
    cases hk : line.isReport with
    | true =>
      have hkept : kept = (blockOf settings current line.content).andThen
          (blockOfLines settings (blockOf settings current line.content).path
            (rest.filter Line.isReport)) :=
        congrArg (blockOfLines settings current) (List.filter_cons_of_pos hk)
      rw [hkept, hblock, Block.output_andThen, Block.output_andThen, io]
      exact ⟨rfl, congrArg (_ + ·) ir, congrArg (_ + ·) ie, ip⟩
    | false =>
      obtain ⟨ho, hr, he, hpath⟩ := blockOf_of_not_isReport hp hk current
      have hkept : kept = blockOfLines settings (blockOf settings current line.content).path
          (rest.filter Line.isReport) := by
        rw [hpath]
        exact congrArg (blockOfLines settings current) (List.filter_cons_of_neg (by simp [hk]))
      rw [hkept, hblock, Block.output_andThen, ho]
      refine ⟨io, ?_, ?_, ip⟩
      · rw [ir]
        exact ((congrArg (· + _) hr).trans (Nat.zero_add _)).symm
      · rw [ie]
        exact ((congrArg (· + _) he).trans (Nat.zero_add _)).symm

/-- **Nothing but the events of the runner** moves the tree. If all other lines are left out of
several lines, each line that remains turns out to be what it was, and the path at the end is the
same. If all lines that are no reports are left out of a stream, a feed that writes nothing but
events writes the same and counts as many reports and events. -/
theorem run_without_others (current : Path) :
    (∀ line : Line, (line.step current).outcome.isReport = line.isReport) ∧
    (∀ all : List Line,
      verdicts current (all.filter Line.isRunnerEvent) =
          (verdicts current all).filter (fun p => p.1.isRunnerEvent) ∧
        pathOver current (all.filter Line.isRunnerEvent) = pathOver current all) ∧
    ∀ (format : Format) (input : List UInt8),
      let kept := ((lines input).filter Line.isReport).flatMap Line.toBytes
      let result := run ⟨format, false⟩ current (.unfailing input)
      let same := run ⟨format, false⟩ current (.unfailing kept)
      lines kept = (lines input).filter Line.isReport ∧ same.output = result.output ∧
        same.stats.records = result.stats.records ∧ same.stats.events = result.stats.events ∧
        same.path = result.path ∧ same.fault = none ∧ result.fault = none := by
  refine ⟨fun line => isReport_step line current, verdicts_filter (fun _ => path_step) current,
    fun format input => ?_⟩
  intro kept result same
  have hl : lines kept = (lines input).filter Line.isReport :=
    lines_toBytes_of_sublist List.filter_sublist
  obtain ⟨ho, hs, hp, hf⟩ := run_unfailing ⟨format, false⟩ current input
  obtain ⟨ho', hs', hp', hf'⟩ := run_unfailing ⟨format, false⟩ current kept
  rw [hl] at ho' hs' hp'
  obtain ⟨hbo, hbr, hbe, hbp⟩ :=
    @blockOfLines_filter ⟨format, false⟩ rfl current (lines input)
  refine ⟨hl, (ho'.trans hbo).trans ho.symm, ?_, ?_, (hp'.trans hbp).trans hp.symm, hf', hf⟩
  · rw [hs', hs]
    exact hbr
  · rw [hs', hs]
    exact hbe

end TestTree.Console
