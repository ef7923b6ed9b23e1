import TestTree.Proofs.Console.Run

/-! # Runs with faults

What a run has written and how far it has come when it meets a fault is told by runs without one.
`run_faults`: a writer that refuses what comes after a number of bytes has taken just these bytes of
the output, and the path is that of the lines up to the first one that is not written in full. A
reader that fails has given the lines up to the last line feed. A flush that fails comes after all
lines. The reason is that reading and flushing have no part in what is written
(`run_congr`), and that lines which a run has come to are the lines of their own bytes
(`runOver_of_append`). The path is always the one that the lines lead to if nothing is written at
all, `pathOver`. -/

namespace TestTree.Console

variable {settings : Settings} {current : Path}

/-- The run without faults over the bytes of lines. -/
def runOver (settings : Settings) (current : Path) (lines : List Line) : Result :=
  run settings current (.unfailing (lines.flatMap Line.toBytes))

/-! ### Lines that are read -/

theorem runOver_of_append {input : List UInt8} {front rest : List Line}
    (h : lines input = front ++ rest) (settings : Settings) (current : Path) :
    (runOver settings current front).output = (blockOfLines settings current front).output ∧
      (runOver settings current front).path = (blockOfLines settings current front).path := by
  have hr := run_unfailing settings current (front.flatMap Line.toBytes)
  rw [lines_toBytes_of_append h] at hr
  exact ⟨hr.1, hr.2.2.1⟩

/-- The path after a run without faults is that of its lines, whatever is written. -/
theorem path_run_unfailing (settings : Settings) (current : Path) (input : List UInt8) :
    (run settings current (.unfailing input)).path = pathOver current (lines input) := by
  rw [(run_unfailing settings current input).2.2.1, path_blockOfLines]

theorem path_runOver_of_append {input : List UInt8} {front rest : List Line}
    (h : lines input = front ++ rest) (settings : Settings) (current : Path) :
    (runOver settings current front).path = pathOver current front := by
  rw [(runOver_of_append h settings current).2, path_blockOfLines]

theorem lines_of_readFails {source : Source} (h : source.readFails = true) :
    source.lines = lines (wholeLines source.input) := by
  rw [← filter_terminated_lines, Source.lines]
  refine List.filter_congr fun line _ => ?_
  rw [Source.reads, h, Bool.not_true, Bool.or_false]

theorem lines_of_not_readFails {source : Source} (h : source.readFails = false) :
    source.lines = lines source.input := by
  refine List.filter_eq_self.mpr fun line _ => ?_
  rw [Source.reads, h, Bool.not_false, Bool.or_true]

/-! ### Reading and flushing -/

/-- **Runs over the same lines** with the same room differ in nothing but the fault at the end. -/
theorem run_congr {source other : Source} (hl : source.lines = other.lines)
    (hr : source.room = other.room) (settings : Settings) (current : Path) :
    let result := run settings current source
    let same := run settings current other
    result.output = same.output ∧ result.stats = same.stats ∧ result.path = same.path := by
  have hs : Session.start current source = .start current other := by
    rw [Session.start, hr]
    rfl
  rw [run_eq, run_eq, hl, hs]
  rcases other.lines.foldlM (Session.answer settings) (.start current other) with s | s
  · exact ⟨rfl, rfl, rfl⟩
  · obtain ⟨ho, hst, hp, -⟩ := Session.finish_nil settings source s
    obtain ⟨ho', hst', hp', -⟩ := Session.finish_nil settings other s
    exact ⟨ho.trans ho'.symm, hst.trans hst'.symm, hp.trans hp'.symm⟩

/-- Without a limit the fault is the one at the end. -/
theorem fault_of_room_eq_none {source : Source} (h : source.room = none) :
    (run settings current source).fault = source.faultAtEnd := by
  refine (run_of_le settings current source fun n hn => ?_).2.2.2
  rw [h] at hn
  cases hn

/-- With a limit the fault of the writer comes before the one at the end. -/
theorem fault_of_room_eq_some {source : Source} {n : Nat} (h : source.room = some n) :
    (run settings current source).fault =
      if n < (blockOfLines settings current source.lines).output.length then some .write
      else source.faultAtEnd := by
  split
  · next hlt => exact (run_of_lt settings current source h hlt).2.1
  · next hge =>
    refine (run_of_le settings current source fun m hm => ?_).2.2.2
    obtain rfl := Option.some.inj (h.symm.trans hm)
    exact Nat.le_of_not_lt hge

/-! ### All faults -/

/-- **A writer** with room for a number of bytes. -/
theorem run_of_room (settings : Settings) (current : Path) (input : List UInt8) (n : Nat) :
    let calm := run settings current (.unfailing input)
    let result := run settings current { Source.unfailing input with room := some n }
    result.output = calm.output.take n ∧
      if calm.output.length ≤ n then
        result.fault = none ∧ result.stats = calm.stats ∧ result.path = calm.path
      else
        result.fault = some .write ∧
          ∃ front line rest, lines input = front ++ line :: rest ∧
            (runOver settings current front).output.length ≤ n ∧
            n < (runOver settings current (front ++ [line])).output.length ∧
            result.path = (runOver settings current (front ++ [line])).path ∧
            result.path = pathOver current (front ++ [line]) := by
  intro calm result
  let source : Source := { Source.unfailing input with room := some n }
  have hl : source.lines = lines input := lines_of_not_readFails rfl
  obtain ⟨ho, hs, hp, -⟩ := run_unfailing settings current input
  split
  · next hle =>
    have hroom : ∀ m ∈ source.room,
        (blockOfLines settings current source.lines).output.length ≤ m := by
      intro m hm
      obtain rfl : n = m := Option.some.inj hm
      rw [hl, ← ho]
      exact hle
    obtain ⟨hro, hrs, hrp, hrf⟩ := run_of_le settings current source hroom
    rw [hl] at hro hrs hrp
    rw [List.take_of_length_le hle]
    exact ⟨hro.trans ho.symm, hrf, hrs.trans hs.symm, hrp.trans hp.symm⟩
  · next hlt =>
    have hroom : n < (blockOfLines settings current source.lines).output.length := by
      rw [hl, ← ho]
      exact Nat.lt_of_not_le hlt
    obtain ⟨hro, hrf, front, line, rest, hsplit, hfront, hline, hrp⟩ :=
      run_of_lt settings current source rfl hroom
    rw [hl] at hro hsplit
    -- `front` comes first in the input, and so does `front ++ [line]`.
    obtain ⟨hfo, -⟩ := runOver_of_append hsplit settings current
    rw [List.append_cons] at hsplit
    obtain ⟨hlo, hlp⟩ := runOver_of_append hsplit settings current
    have hpath : result.path = (runOver settings current (front ++ [line])).path :=
      hrp.trans hlp.symm
    have hover := path_runOver_of_append hsplit settings current
    rw [List.append_assoc, List.singleton_append] at hsplit
    refine ⟨hro.trans (by rw [← ho]), hrf, front, line, rest, hsplit, ?_, ?_, hpath,
      hpath.trans hover⟩
    · rw [hfo]
      exact hfront
    · rw [hlo]
      exact hline

/-- **A reader that fails** has given the lines up to the last line feed. -/
theorem run_of_readFails (settings : Settings) (current : Path) (input : List UInt8)
    (room : Option Nat) :
    let limited := run settings current { Source.unfailing (wholeLines input) with room := room }
    let result :=
      run settings current { Source.unfailing input with readFails := true, room := room }
    result.output = limited.output ∧ result.path = limited.path := by
  intro limited result
  let source : Source := { Source.unfailing input with readFails := true, room := room }
  let cut : Source := { Source.unfailing (wholeLines input) with room := room }
  have hs : source.lines = lines (wholeLines input) := lines_of_readFails rfl
  have hc : cut.lines = lines (wholeLines input) := lines_of_not_readFails rfl
  obtain ⟨ho, -, hp⟩ := run_congr (hs.trans hc.symm) rfl settings current
  exact ⟨ho, hp⟩

/-- **Runs with faults** are told by runs without. A writer with room for `n` bytes takes the first
`n` bytes of the output; if that is not all, the run comes to the path of the lines up to the one
whose bytes hold byte `n`. A reader that fails after the input gives the lines up to the last line
feed, and its fault is told if the writer had none. A flush that fails comes after all lines. The
path is the one that these lines lead to, whatever of them is written. -/
theorem run_faults (settings : Settings) (current : Path) (input : List UInt8) :
    let calm := run settings current (.unfailing input)
    (∀ n,
      let result := run settings current { Source.unfailing input with room := some n }
      result.output = calm.output.take n ∧
        if calm.output.length ≤ n then
          result.fault = none ∧ result.stats = calm.stats ∧ result.path = calm.path
        else
          result.fault = some .write ∧
            ∃ front line rest, lines input = front ++ line :: rest ∧
              (runOver settings current front).output.length ≤ n ∧
              n < (runOver settings current (front ++ [line])).output.length ∧
              result.path = (runOver settings current (front ++ [line])).path ∧
              result.path = pathOver current (front ++ [line])) ∧
      (let cut := Source.unfailing (wholeLines input)
       let whole := run settings current cut
       (let result := run settings current { Source.unfailing input with readFails := true }
        result.output = whole.output ∧ result.path = whole.path ∧
          result.path = pathOver current (lines (wholeLines input)) ∧
          result.fault = some .read) ∧
       ∀ n,
         let limited := run settings current { cut with room := some n }
         let result :=
           run settings current { Source.unfailing input with readFails := true, room := some n }
         result.output = limited.output ∧ result.path = limited.path ∧
           result.fault = some (if n < whole.output.length then .write else .read)) ∧
      let result := run settings current { Source.unfailing input with flushFails := true }
      result.output = calm.output ∧ result.path = calm.path ∧
        result.path = pathOver current (lines input) ∧ result.fault = some .flush := by
  intro calm
  refine ⟨run_of_room settings current input, ⟨?_, fun n => ?_⟩, ?_⟩
  · intro result
    obtain ⟨ho, hp⟩ := run_of_readFails settings current input none
    have hover := path_run_unfailing settings current (wholeLines input)
    exact ⟨ho, hp, hp.trans hover, fault_of_room_eq_none rfl⟩
  · intro limited result
    obtain ⟨ho, hp⟩ := run_of_readFails settings current input (some n)
    have hl : Source.lines { Source.unfailing input with readFails := true, room := some n } =
        lines (wholeLines input) := lines_of_readFails rfl
    have hf : result.fault = _ := fault_of_room_eq_some rfl
    rw [hl, ← (run_unfailing settings current (wholeLines input)).1] at hf
    refine ⟨ho, hp, hf.trans ?_⟩
    split <;> rfl
  · intro result
    have hl : Source.lines { Source.unfailing input with flushFails := true } =
        (Source.unfailing input).lines := rfl
    obtain ⟨ho, -, hp⟩ := run_congr hl rfl settings current
    exact ⟨ho, hp, hp.trans (path_run_unfailing settings current input), fault_of_room_eq_none rfl⟩

/-- A line of other output. -/
def otherLine : Line := ⟨Text.Utf8.encode "start".toList, true⟩

/-- A line with a test in a suite. -/
def testLine : Line where
  bytes := Text.Utf8.encode
    "\x7b\"event\":\"testCompleted\",\"status\":\"pass\",\"labels\":[\"M\",\"t\"]\x7d".toList
  terminated := true

/-- The line that ends the run. -/
def endLine : Line := ⟨Text.Utf8.encode "\x7b\"event\":\"runComplete\"\x7d".toList, true⟩

/-- The bytes of the three lines. -/
def threeLines : List UInt8 := [otherLine, testLine, endLine].flatMap Line.toBytes

/-- The writer refuses a byte in the middle of what the test is answered with, so the run comes to
the test and not to the end. -/
theorem threeLines_cut :
    let result := run ⟨.teamcity, true⟩ .root { Source.unfailing threeLines with room := some 20 }
    result.output = Text.Utf8.encode "start\n##teamcity[tes".toList ∧
      result.fault = some .write ∧ result.path.labels = ["M", "t"] ∧
      (run ⟨.teamcity, true⟩ .root (.unfailing threeLines)).path = .root := by
  have hlong : ¬ (run ⟨.teamcity, true⟩ .root (.unfailing threeLines)).output.length ≤ 20 := by
    decide +kernel
  have hother : (runOver ⟨.teamcity, true⟩ .root [otherLine]).output.length = 6 := by
    decide +kernel
  have htest : 20 < (runOver ⟨.teamcity, true⟩ .root [otherLine, testLine]).output.length := by
    decide +kernel
  have hroom := (run_faults ⟨.teamcity, true⟩ .root threeLines).1 20
  simp only [if_neg hlong] at hroom
  obtain ⟨ho, hf, front, line, rest, hsplit, hfront, hline, -, hpath⟩ := hroom
  rw [show lines threeLines = [otherLine, testLine, endLine] by decide +kernel] at hsplit
  -- the room ends within the answer to the second line
  have hsecond : front ++ [line] = [otherLine, testLine] := by
    rcases front with - | ⟨first, - | ⟨second, - | ⟨third, front⟩⟩⟩
    · obtain ⟨rfl, -⟩ := List.cons.inj hsplit
      rw [List.nil_append, hother] at hline
      omega
    · simp only [List.cons_append, List.nil_append, List.cons.injEq] at hsplit
      rw [← hsplit.1, ← hsplit.2.1, List.singleton_append]
    · simp only [List.cons_append, List.nil_append, List.cons.injEq] at hsplit
      rw [← hsplit.1, ← hsplit.2.1] at hfront
      omega
    · simp at hsplit
  rw [hsecond] at hpath
  refine ⟨ho.trans ?_, hf, ?_, ?_⟩
  · decide +kernel
  · rw [hpath]
    decide +kernel
  · decide +kernel

end TestTree.Console
