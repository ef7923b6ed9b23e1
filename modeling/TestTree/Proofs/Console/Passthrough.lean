import TestTree.Proofs.Console.Faults

/-! # Lines that are passed through

A line that is no report is written as it came, less what ends it: a line feed, or a carriage return
and a line feed (`withoutTerminator`). This is so for every line but one. If a stream ends in a
carriage return, the last line has no line feed and so nothing that ends it, yet the carriage return
is left out (`content_append_of_endsInReturn`). `run_passes_through` says for each line of a stream
where its bytes stand in what a run writes and which of them; `lastReturn_lost` is a stream of which
not all is passed through. -/

namespace TestTree.Console

/-- Bytes of a line less those that end it. -/
def withoutTerminator (bytes : List UInt8) : List UInt8 :=
  if [carriageReturn, lineFeed] <:+ bytes then bytes.dropLast.dropLast
  else if [lineFeed] <:+ bytes then bytes.dropLast
  else bytes

/-- A line without a line feed that ends in a carriage return. -/
def Line.EndsInReturn (line : Line) : Prop :=
  line.terminated = false ∧ line.bytes.getLast? = some carriageReturn

/-! ### The end of a line -/

theorem withoutTerminator_append_lineFeed (bytes : List UInt8) :
    withoutTerminator (bytes ++ [lineFeed]) = dropLast? carriageReturn bytes := by
  unfold withoutTerminator dropLast?
  have hf : [lineFeed] <:+ bytes ++ [lineFeed] := List.suffix_append bytes [lineFeed]
  by_cases h : bytes.getLast? = some carriageReturn
  · obtain ⟨front, rfl⟩ := List.getLast?_eq_some_iff.mp h
    have hr : [carriageReturn, lineFeed] <:+ front ++ [carriageReturn] ++ [lineFeed] :=
      ⟨front, List.append_cons front carriageReturn [lineFeed]⟩
    rw [if_pos hr, if_pos h, List.dropLast_concat]
  · have hr : ¬ [carriageReturn, lineFeed] <:+ bytes ++ [lineFeed] := by
      rintro ⟨front, he⟩
      rw [List.append_cons] at he
      rw [← (List.append_inj' he rfl).1, List.getLast?_concat] at h
      exact h rfl
    rw [if_neg hr, if_pos hf, if_neg h, List.dropLast_concat]

theorem withoutTerminator_of_notMem {bytes : List UInt8} (h : lineFeed ∉ bytes) :
    withoutTerminator bytes = bytes := by
  have hf : ¬ [lineFeed] <:+ bytes := fun hs => h (hs.subset List.mem_cons_self)
  have hr : ¬ [carriageReturn, lineFeed] <:+ bytes := fun hs =>
    h (hs.subset (List.mem_cons_of_mem _ List.mem_cons_self))
  rw [withoutTerminator, if_neg hr, if_neg hf]

/-- **The content of a line** is all of it less what ends it. -/
theorem content_of_not_endsInReturn {line : Line} (h : lineFeed ∉ line.bytes)
    (hr : ¬ line.EndsInReturn) : line.content = withoutTerminator line.toBytes := by
  obtain ⟨bytes, terminated⟩ := line
  cases terminated with
  | true => exact (withoutTerminator_append_lineFeed bytes).symm
  | false =>
    have hn : bytes.getLast? ≠ some carriageReturn := fun he => hr ⟨rfl, he⟩
    exact (if_neg hn).trans (withoutTerminator_of_notMem h).symm

/-- **The carriage return at the end** of a stream is left out as well. -/
theorem content_append_of_endsInReturn {line : Line} (h : lineFeed ∉ line.bytes)
    (hr : line.EndsInReturn) :
    line.content ++ [carriageReturn] = withoutTerminator line.toBytes := by
  obtain ⟨bytes, terminated⟩ := line
  obtain ⟨rfl, he⟩ := hr
  obtain ⟨front, rfl⟩ := List.getLast?_eq_some_iff.mp he
  have hc : Line.content ⟨front ++ [carriageReturn], false⟩ = front := by
    rw [Line.content, dropLast?, if_pos he, List.dropLast_concat]
  rw [hc]
  exact (withoutTerminator_of_notMem h).symm

/-- Only the last line of a stream ends in a carriage return without a line feed. -/
theorem eq_nil_of_endsInReturn {input : List UInt8} {front back : List Line} {line : Line}
    (h : lines input = front ++ line :: back) (hr : line.EndsInReturn) : back = [] := by
  have hp := pairwise_terminated_lines input
  rw [h, List.pairwise_append, List.pairwise_cons] at hp
  refine List.eq_nil_iff_forall_not_mem.mpr fun next hn => ?_
  have ht := hp.2.1.1 next hn
  rw [hr.1] at ht
  cases ht

/-! ### Runs -/

/-- The bytes of the answer to a line that is no report. -/
theorem answer_of_not_isReport {outcome : Progress.Outcome} (h : outcome.isReport = false)
    (format : Format) (line : Line) :
    line.answer ⟨format, true⟩ outcome = line.content ++ [lineFeed] := by
  cases outcome with
  | report events => cases h
  | console => rfl
  | malformed m => rfl

/-- **Lines that are no reports are passed through.** Such a line is written between the answers to
the lines before it and to those after it, with a line feed. What is written of it is all but what
ends it; a carriage return that ends the stream without a line feed after it is missing. -/
theorem run_passes_through {format : Format} {current : Path} {input : List UInt8}
    {front back : List (Line × Progress.Outcome)} {line : Line} {outcome : Progress.Outcome}
    (h : verdicts current (lines input) = front ++ (line, outcome) :: back)
    (hn : outcome.isReport = false) :
    let result := run ⟨format, true⟩ current (.unfailing input)
    result.output = (runOver ⟨format, true⟩ current (front.map Prod.fst)).output ++
        (line.content ++ [lineFeed]) ++ back.flatMap (fun p => p.1.answer ⟨format, true⟩ p.2) ∧
      (¬ line.EndsInReturn → line.content = withoutTerminator line.toBytes) ∧
      (line.EndsInReturn →
        back = [] ∧ line.content ++ [carriageReturn] = withoutTerminator line.toBytes) := by
  intro result
  have hl : lines input = front.map Prod.fst ++ line :: back.map Prod.fst := by
    rw [← map_fst_verdicts current (lines input), h, List.map_append, List.map_cons]
  have hlf : lineFeed ∉ line.bytes :=
    lineFeed_notMem_of_mem_lines (hl ▸ List.mem_append_right _ List.mem_cons_self)
  have hfront : (runOver ⟨format, true⟩ current (front.map Prod.fst)).output =
      front.flatMap fun p => p.1.answer ⟨format, true⟩ p.2 := by
    rw [(runOver_of_append hl _ _).1, (blockOfLines_eq _ _ _).1, verdicts_of_eq_append h]
  refine ⟨?_, content_of_not_endsInReturn hlf,
    fun hr => ⟨?_, content_append_of_endsInReturn hlf hr⟩⟩
  · have ho : result.output = _ := (run_unfailing ⟨format, true⟩ current input).1
    rw [ho, (blockOfLines_eq _ _ _).1, h, List.flatMap_append, List.flatMap_cons, hfront,
      answer_of_not_isReport hn]
    exact (List.append_assoc _ _ _).symm
  · exact List.map_eq_nil_iff.mp (eq_nil_of_endsInReturn hl hr)

/-- Bytes that are no text, with two carriage returns before the line feed, and then a line that
shows how far something has come. -/
def progressOutput : List UInt8 := [0xFF, 0x0D, 0x0D, 0x0A, 0x35, 0x25, 0x0D]

theorem verdicts_progressOutput :
    verdicts .root (lines progressOutput) =
      [(⟨[0xFF, 0x0D, 0x0D], true⟩, .console), (⟨[0x35, 0x25, 0x0D], false⟩, .console)] := by
  rfl

theorem progressOutput_passes_through :
    (run ⟨.teamcity, true⟩ .root (.unfailing progressOutput)).output =
        [] ++ ([0xFF, 0x0D] ++ [lineFeed]) ++ [0x35, 0x25, 0x0A] ∧
      [0xFF, 0x0D] = withoutTerminator [0xFF, 0x0D, 0x0D, 0x0A] := by
  have h := @run_passes_through .teamcity .root progressOutput [] _ _ _ verdicts_progressOutput rfl
  exact ⟨h.1, h.2.1 fun hr => by cases hr.1⟩

/-- Not every line that is no report is passed through with all its bytes. -/
theorem lastReturn_lost :
    ¬ ∀ (format : Format) (current : Path) (input : List UInt8)
        (front back : List (Line × Progress.Outcome)) (line : Line) (outcome : Progress.Outcome),
      verdicts current (lines input) = front ++ (line, outcome) :: back →
        outcome.isReport = false →
          ∃ before after, (run ⟨format, true⟩ current (.unfailing input)).output =
            before ++ (withoutTerminator line.toBytes ++ [lineFeed]) ++ after := by
  intro h
  obtain ⟨before, after, ho⟩ := h .teamcity .root [0x35, 0x25, 0x0D] [] []
    ⟨[0x35, 0x25, 0x0D], false⟩ .console rfl rfl
  have hr : (run ⟨.teamcity, true⟩ .root (.unfailing [0x35, 0x25, 0x0D])).output =
      [0x35, 0x25, 0x0A] := rfl
  have hw : withoutTerminator (Line.toBytes ⟨[0x35, 0x25, 0x0D], false⟩) = [0x35, 0x25, 0x0D] := rfl
  have hl := congrArg List.length ho
  rw [hr, hw] at hl
  simp only [List.length_append, List.length_cons, List.length_nil] at hl
  omega

end TestTree.Console
