import TestTree.Proofs.Accept
import TestTree.Proofs.Console.Session

/-! # What a run without faults writes

A run without faults comes to the block of its lines (`run_unfailing`). The block of a line is what
its outcome says: its bytes are `Line.answer`, it counts as `Stats.ofOutcome`, and its path is that
of the step that the line makes (`blockOf_eq`). So the lines of a run are answered one by one, as
they turn out (`blockOfLines_eq`), and the path that they lead to is the same whatever is written
(`path_blockOfLines`). What lines turn out to be depends on their texts alone
(`flatMap_events_verdicts`). -/

namespace TestTree.Console

variable {settings : Settings}

/-! ### Runs -/

theorem lines_unfailing (input : List UInt8) : (Source.unfailing input).lines = lines input := by
  refine List.filter_eq_self.mpr fun line _ => ?_
  exact Bool.or_true line.terminated

/-- **A run without faults** comes to the block of its lines. -/
theorem run_unfailing (settings : Settings) (current : Path) (input : List UInt8) :
    let block := blockOfLines settings current (lines input)
    let result := run settings current (.unfailing input)
    result.output = block.output ∧ result.stats = block.stats ∧ result.path = block.path ∧
      result.fault = none := by
  have h := run_of_le settings current (.unfailing input) fun n hn => by cases hn
  rwa [lines_unfailing] at h

/-! ### One line -/

theorem flatten_renderAll (format : Format) (events : List Event) :
    (renderAll format events).flatten = events.flatMap format.line := by
  induction events with
  | nil => rfl
  | cons event rest ih =>
    rw [List.flatMap_cons, ← ih]
    simp [renderAll, terminate, Format.line]

theorem flatten_echo (settings : Settings) (content : List UInt8) :
    (echo settings content).flatten =
      if settings.passthrough then content ++ [lineFeed] else [] := by
  unfold echo terminate
  split <;> simp

theorem blockOfText_eq (settings : Settings) (current : Path) (line : Line) (text : List Char) :
    let block := blockOfText settings current line.content text
    let step := Progress.accept current text
    block.output = line.answer settings step.outcome ∧
      block.stats = .ofOutcome step.outcome ∧ block.path = step.path := by
  unfold blockOfText Block.output
  dsimp only
  split
  · next events ho =>
    rw [ho]
    exact ⟨flatten_renderAll settings.format events, rfl, rfl⟩
  · next ho =>
    rw [ho]
    exact ⟨flatten_echo settings line.content, rfl, rfl⟩
  · next m ho =>
    rw [ho]
    exact ⟨flatten_echo settings line.content, rfl, rfl⟩

/-- **The block of a line** is what the line turns out to be. -/
theorem blockOf_eq (settings : Settings) (current : Path) (line : Line) :
    let block := blockOf settings current line.content
    let step := line.step current
    block.output = line.answer settings step.outcome ∧
      block.stats = .ofOutcome step.outcome ∧ block.path = step.path := by
  unfold blockOf Line.step Line.text?
  rcases hr : Text.Utf8.read line.content with fault | text
  · exact ⟨flatten_echo settings line.content, rfl, rfl⟩
  · simp only [String.toList_ofList]
    exact blockOfText_eq settings current line text

/-! ### All lines -/

/-- **Lines are answered one by one**, as they turn out. -/
theorem blockOfLines_eq (settings : Settings) (current : Path) (lines : List Line) :
    let block := blockOfLines settings current lines
    let all := verdicts current lines
    block.output = all.flatMap (fun p => p.1.answer settings p.2) ∧
      block.stats = (all.map fun p => Stats.ofOutcome p.2).sum := by
  induction lines generalizing current with
  | nil => exact ⟨rfl, rfl⟩
  | cons line rest ih =>
    obtain ⟨ho, hs, hp⟩ := blockOf_eq settings current line
    obtain ⟨iho, ihs⟩ := ih (line.step current).path
    rw [blockOfLines, verdicts, hp]
    refine ⟨?_, ?_⟩
    · rw [Block.output_andThen, ho, iho, List.flatMap_cons]
    · rw [List.map_cons, List.sum_cons, ← ihs, ← hs]
      rfl

/-- The path after a block of lines is that of the lines, whatever is written. -/
theorem path_blockOfLines (settings : Settings) (current : Path) (lines : List Line) :
    (blockOfLines settings current lines).path = pathOver current lines := by
  induction lines generalizing current with
  | nil => rfl
  | cons line rest ih =>
    rw [blockOfLines, pathOver, ← (blockOf_eq settings current line).2.2]
    exact ih _

theorem map_fst_verdicts (current : Path) (lines : List Line) :
    (verdicts current lines).map Prod.fst = lines := by
  induction lines generalizing current with
  | nil => rfl
  | cons line rest ih => exact congrArg (line :: ·) (ih (line.step current).path)

/-- What the first lines turn out to be does not depend on the lines after them. -/
theorem verdicts_of_eq_append {current : Path} {lines : List Line}
    {front back : List (Line × Progress.Outcome)} (h : verdicts current lines = front ++ back) :
    verdicts current (front.map Prod.fst) = front := by
  induction front generalizing current lines with
  | nil => rfl
  | cons p front ih =>
    cases lines with
    | nil => cases h
    | cons line rest =>
      rw [verdicts, List.cons_append, List.cons.injEq] at h
      obtain ⟨rfl, h⟩ := h
      exact congrArg (_ :: ·) (ih h)

/-- **The events of lines** are those of their texts. -/
theorem flatMap_events_verdicts (current : Path) (lines : List Line) :
    (verdicts current lines).flatMap (·.2.events) =
      (Progress.acceptAll current (lines.filterMap Line.text?)).flatMap (·.outcome.events) := by
  induction lines generalizing current with
  | nil => rfl
  | cons line rest ih =>
    rw [verdicts, List.flatMap_cons, ih, Line.step]
    rcases ht : line.text? with - | text
    · rw [List.filterMap_cons_none ht]
      rfl
    · rw [List.filterMap_cons_some ht, Progress.acceptAll, List.flatMap_cons]

/-- A line is answered with its events, if other lines are dropped. -/
theorem answer_of_passthrough_eq_false (h : settings.passthrough = false) (line : Line)
    (outcome : Progress.Outcome) :
    line.answer settings outcome = outcome.events.flatMap settings.format.line := by
  have hn : (if settings.passthrough then line.content ++ [lineFeed] else []) = [] := by
    rw [h]
    rfl
  cases outcome with
  | report events => rfl
  | console => exact hn
  | malformed m => exact hn

/-- **Without other lines** the events of the texts are written, in order. -/
theorem output_blockOfLines (h : settings.passthrough = false) (current : Path)
    (lines : List Line) :
    (blockOfLines settings current lines).output =
      ((Progress.acceptAll current (lines.filterMap Line.text?)).flatMap
        (·.outcome.events)).flatMap settings.format.line := by
  rw [(blockOfLines_eq settings current lines).1, ← flatMap_events_verdicts, List.flatMap_assoc]
  refine List.flatMap_congr fun p _ => ?_
  exact answer_of_passthrough_eq_false h p.1 p.2

end TestTree.Console
