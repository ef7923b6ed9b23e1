import TestTree.Proofs.Console.Render
import TestTree.Proofs.Console.Run

/-! # What is counted

Each line of a stream is counted once, as a report, as ordinary output or as a report with a
mismatch, and is answered by itself. `run_counted`: the counts of a run are those of its lines, what
it writes are their answers, and the lines that it writes are the events that it counted and, if
other lines are passed through, these. The last needs that an event is one line in every format
(`count_flatMap_line`) and that the content of a line has no line feed. -/

namespace TestTree.Console

/-! ### Counts -/

/-- The lines that are written according to counts. -/
def Stats.written (settings : Settings) (s : Stats) : Nat :=
  s.events + if settings.passthrough then s.passthrough + s.rejected else 0

theorem Stats.written_add (settings : Settings) (s t : Stats) :
    (s + t).written settings = s.written settings + t.written settings := by
  simp only [Stats.written, Stats.events_add, Stats.passthrough_add, Stats.rejected_add]
  split <;> omega

theorem Stats.lines_add (s t : Stats) : (s + t).lines = s.lines + t.lines := by
  simp only [Stats.lines, Stats.records_add, Stats.passthrough_add, Stats.rejected_add]
  omega

theorem Stats.lines_ofOutcome (outcome : Progress.Outcome) : (ofOutcome outcome).lines = 1 := by
  cases outcome <;> rfl

/-! ### Answers -/

theorem lineFeed_notMem_content {line : Line} (h : lineFeed ∉ line.bytes) :
    lineFeed ∉ line.content := by
  unfold Line.content dropLast?
  split
  · exact fun hm => h (List.dropLast_subset _ hm)
  · exact h

/-- **The answer to a line** has as many lines as the outcome counts. -/
theorem count_answer {line : Line} (h : lineFeed ∉ line.bytes) (settings : Settings)
    (outcome : Progress.Outcome) :
    (line.answer settings outcome).count lineFeed = (Stats.ofOutcome outcome).written settings := by
  have hecho : (if settings.passthrough then line.content ++ [lineFeed] else []).count lineFeed =
      if settings.passthrough then 1 else 0 := by
    split
    · rw [List.count_append, List.count_eq_zero.mpr (lineFeed_notMem_content h)]
      rfl
    · rfl
  cases outcome with
  | report events =>
    rw [Line.answer, count_flatMap_line]
    simp [Stats.ofOutcome, Stats.written]
  | console => simp [Line.answer, hecho, Stats.ofOutcome, Stats.written]
  | malformed m => simp [Line.answer, hecho, Stats.ofOutcome, Stats.written]

/-! ### Runs -/

theorem lines_sum (all : List (Line × Progress.Outcome)) :
    (all.map fun p => Stats.ofOutcome p.2).sum.lines = all.length := by
  induction all with
  | nil => rfl
  | cons p all ih =>
    rw [List.map_cons, List.sum_cons, Stats.lines_add, ih, Stats.lines_ofOutcome, List.length_cons,
      Nat.add_comm]

theorem count_answers {all : List (Line × Progress.Outcome)}
    (h : ∀ p ∈ all, lineFeed ∉ p.1.bytes) (settings : Settings) :
    (all.flatMap fun p => p.1.answer settings p.2).count lineFeed =
      (all.map fun p => Stats.ofOutcome p.2).sum.written settings := by
  induction all with
  | nil =>
    unfold Stats.written
    split <;> rfl
  | cons p all ih =>
    obtain ⟨hp, hall⟩ := List.forall_mem_cons.mp h
    rw [List.flatMap_cons, List.count_append, count_answer hp, ih hall, List.map_cons,
      List.sum_cons, Stats.written_add]

/-- **Every line is counted once and answered by itself.** A run without faults ends well. It counts
each line as one of three, so that there are as many counted lines as there are lines. It writes the
answers to its lines in order: the events of a report, each on a line, or the content of any other
line if such lines are passed through. It writes as many lines as it counted events and, if they are
passed through, other lines. -/
theorem run_counted (settings : Settings) (current : Path) (input : List UInt8) :
    let result := run settings current (.unfailing input)
    let all := verdicts current (lines input)
    result.fault = none ∧
      (all.map Prod.fst = lines input ∧ (∀ p ∈ all, (Stats.ofOutcome p.2).lines = 1) ∧
        result.stats = (all.map fun p => Stats.ofOutcome p.2).sum) ∧
      (result.stats.lines = (lines input).length ∧
        (lines input).length = input.count lineFeed + if AtLineEnd input then 0 else 1) ∧
      result.output = all.flatMap (fun p => p.1.answer settings p.2) ∧
      result.output.count lineFeed = result.stats.events +
        if settings.passthrough then result.stats.passthrough + result.stats.rejected else 0 := by
  intro result all
  obtain ⟨ho, hs, -, hf⟩ := run_unfailing settings current input
  obtain ⟨hbo, hbs⟩ := blockOfLines_eq settings current (lines input)
  have hfst : all.map Prod.fst = lines input := map_fst_verdicts current (lines input)
  have hout : result.output = all.flatMap (fun p => p.1.answer settings p.2) := ho.trans hbo
  have hstats : result.stats = (all.map fun p => Stats.ofOutcome p.2).sum := hs.trans hbs
  have hlf : ∀ p ∈ all, lineFeed ∉ p.1.bytes := fun p hp =>
    lineFeed_notMem_of_mem_lines (hfst ▸ List.mem_map_of_mem hp)
  refine ⟨hf, ⟨hfst, fun p _ => Stats.lines_ofOutcome p.2, hstats⟩, ⟨?_, length_lines input⟩, hout,
    ?_⟩
  · rw [hstats, lines_sum, ← hfst, List.length_map]
  · rw [hout, count_answers hlf, hstats]
    rfl

end TestTree.Console
