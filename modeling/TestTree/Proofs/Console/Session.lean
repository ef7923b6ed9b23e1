import TestTree.Console.Run
import TestTree.Proofs.Console.Line

/-! # What a run comes to

A run reads byte by byte and writes piece by piece. Pieces are written as their bytes would be at
once (`Writer.writeAll_eq_write`), and reading finds the lines of the source (`Session.read_eq`). So
a run depends on the block of all lines of its source alone: with room for the bytes of the block
it writes them all and comes to the path of the block (`run_of_le`); with less room it writes as
many as there is room for, and comes to the path of the first lines whose bytes do not fit
(`run_of_lt`). -/

namespace TestTree.Console

variable {settings : Settings}

/-! ### Writing -/

theorem Writer.write_nil (w : Writer) : w.write [] = .ok w := by
  rcases w with ⟨written, - | n⟩ <;> simp [Writer.write]

theorem Writer.write_append (w : Writer) (a b : List UInt8) :
    w.write (a ++ b) = w.write a >>= (·.write b) := by
  rcases w with ⟨written, - | n⟩
  · simp [Writer.write, bind, Except.bind]
  · simp only [Writer.write, List.length_append]
    by_cases ha : a.length ≤ n
    · rw [if_pos ha]
      simp only [bind, Except.bind]
      by_cases hb : b.length ≤ n - a.length
      · rw [if_pos hb, if_pos (by omega), List.append_assoc, Nat.sub_sub]
      · rw [if_neg hb, if_neg (by omega), List.take_append, List.take_of_length_le ha,
          List.append_assoc]
    · rw [if_neg ha, if_neg (by omega), List.take_append_of_le_length (by omega)]
      rfl

/-- **Pieces are written** as their bytes would be at once. -/
theorem Writer.writeAll_eq_write (w : Writer) (pieces : List (List UInt8)) :
    w.writeAll pieces = w.write pieces.flatten := by
  unfold Writer.writeAll
  induction pieces generalizing w with
  | nil => exact w.write_nil.symm
  | cons piece rest ih =>
    rw [List.foldlM_cons, List.flatten_cons, Writer.write_append]
    exact congrArg (w.write piece >>= ·) (funext ih)

theorem Writer.write_of_le {room : Option Nat} {bytes : List UInt8}
    (h : ∀ n ∈ room, bytes.length ≤ n) :
    ∃ rest, Writer.write ⟨[], room⟩ bytes = .ok ⟨bytes, rest⟩ := by
  cases room with
  | none => exact ⟨none, rfl⟩
  | some n => exact ⟨_, if_pos (h n rfl)⟩

theorem Writer.write_of_lt {n : Nat} {bytes : List UInt8} (h : n < bytes.length) :
    Writer.write ⟨[], some n⟩ bytes = .error ⟨bytes.take n, some 0⟩ :=
  if_neg (by omega)

/-! ### Blocks -/

theorem Block.andThen_empty (block : Block) : block.andThen (.empty block.path) = block := by
  rcases block with ⟨pieces, stats, path, log⟩
  simp only [Block.andThen, Block.empty, List.append_nil, Stats.add_zero]

theorem Block.empty_andThen (path : Path) (block : Block) :
    (Block.empty path).andThen block = block := by
  rcases block with ⟨pieces, stats, last, log⟩
  simp only [Block.andThen, Block.empty, List.nil_append, Stats.zero_add]

theorem Block.andThen_assoc (a b c : Block) :
    (a.andThen b).andThen c = a.andThen (b.andThen c) := by
  simp only [Block.andThen, List.append_assoc, Stats.add_assoc]

theorem Block.output_andThen (a b : Block) : (a.andThen b).output = a.output ++ b.output :=
  List.flatten_append

theorem blockOfLines_append (settings : Settings) (current : Path) (front rest : List Line) :
    blockOfLines settings current (front ++ rest) =
      (blockOfLines settings current front).andThen
        (blockOfLines settings (blockOfLines settings current front).path rest) := by
  induction front generalizing current with
  | nil => exact (Block.empty_andThen current _).symm
  | cons line front ih =>
    rw [List.cons_append, blockOfLines, ih]
    exact (Block.andThen_assoc _ _ _).symm

theorem blockOfLines_singleton (settings : Settings) (current : Path) (line : Line) :
    blockOfLines settings current [line] = blockOf settings current line.content :=
  Block.andThen_empty _

/-! ### Answering lines -/

theorem Session.after_after (s : Session) (a b : Block) (v w : Writer) :
    (s.after a v).after b w = s.after (a.andThen b) w := by
  simp only [Session.after, Block.andThen, List.append_assoc, Stats.add_assoc]

theorem Session.after_empty (s : Session) (w : Writer) :
    s.after (.empty s.path) w = { s with writer := w } := by
  simp only [Session.after, Block.empty, List.append_nil, Stats.add_zero]

theorem Session.answer_of_ok {s : Session} {line : Line} {w : Writer}
    (h : s.writer.write (blockOf settings s.path line.content).output = .ok w) :
    s.answer settings line = .ok (s.after (blockOf settings s.path line.content) w) := by
  rw [Block.output, ← Writer.writeAll_eq_write] at h
  simp only [Session.answer, h]

theorem Session.answer_of_error {s : Session} {line : Line} {w : Writer}
    (h : s.writer.write (blockOf settings s.path line.content).output = .error w) :
    s.answer settings line = .error (s.after (blockOf settings s.path line.content) w) := by
  rw [Block.output, ← Writer.writeAll_eq_write] at h
  simp only [Session.answer, h]

/-- The first line is written before the others. -/
theorem Session.write_blockOfLines_cons {s : Session} {line : Line} {v : Writer}
    (h : s.writer.write (blockOf settings s.path line.content).output = .ok v) (rest : List Line) :
    s.writer.write (blockOfLines settings s.path (line :: rest)).output =
      v.write (blockOfLines settings (blockOf settings s.path line.content).path rest).output := by
  rw [blockOfLines, Block.output_andThen, Writer.write_append, h]
  rfl

/-- **Lines that can be written** are all answered. -/
theorem Session.answer_lines_of_ok {s : Session} {lines : List Line} {w : Writer}
    (h : s.writer.write (blockOfLines settings s.path lines).output = .ok w) :
    lines.foldlM (Session.answer settings) s =
      .ok (s.after (blockOfLines settings s.path lines) w) := by
  induction lines generalizing s with
  | nil =>
    have hw : s.writer = w := Except.ok.inj (s.writer.write_nil.symm.trans h)
    rw [blockOfLines, Session.after_empty, ← hw]
    rfl
  | cons line rest ih =>
    rcases hv : s.writer.write (blockOf settings s.path line.content).output with v | v
    · rw [blockOfLines, Block.output_andThen, Writer.write_append, hv] at h
      cases h
    · rw [Session.write_blockOfLines_cons hv] at h
      have hr := @ih (s.after (blockOf settings s.path line.content) v) h
      rw [List.foldlM_cons, Session.answer_of_ok hv]
      refine hr.trans ?_
      rw [Session.after_after]
      rfl

/-- **Lines that cannot be written** are answered up to the first one that does not fit. -/
theorem Session.answer_lines_of_error {s : Session} {lines : List Line} {w : Writer}
    (h : s.writer.write (blockOfLines settings s.path lines).output = .error w) :
    ∃ front line rest v, lines = front ++ line :: rest ∧
      s.writer.write (blockOfLines settings s.path front).output = .ok v ∧
      s.writer.write (blockOfLines settings s.path (front ++ [line])).output = .error w ∧
      lines.foldlM (Session.answer settings) s =
        .error (s.after (blockOfLines settings s.path (front ++ [line])) w) := by
  induction lines generalizing s with
  | nil => cases s.writer.write_nil.symm.trans h
  | cons line rest ih =>
    rcases hv : s.writer.write (blockOf settings s.path line.content).output with v | v
    · -- The first line does not fit, so no other one is answered.
      have hw : v = w := by
        rw [blockOfLines, Block.output_andThen, Writer.write_append, hv] at h
        exact Except.error.inj h
      subst hw
      refine ⟨[], line, rest, s.writer, rfl, s.writer.write_nil, ?_, ?_⟩
      · rw [List.nil_append, blockOfLines_singleton, hv]
      · rw [List.foldlM_cons, Session.answer_of_error hv, List.nil_append, blockOfLines_singleton]
        rfl
    · rw [Session.write_blockOfLines_cons hv] at h
      obtain ⟨front, last, later, u, rfl, hf, hl, hr⟩ :=
        @ih (s.after (blockOf settings s.path line.content) v) h
      refine ⟨line :: front, last, later, u, rfl, ?_, ?_, ?_⟩
      · rw [Session.write_blockOfLines_cons hv]
        exact hf
      · rw [List.cons_append, Session.write_blockOfLines_cons hv]
        exact hl
      · rw [List.foldlM_cons, Session.answer_of_ok hv]
        refine hr.trans ?_
        rw [Session.after_after]
        rfl

/-! ### Reading -/

/-- At the end of the input the line that has begun is the last one, if there is one. -/
theorem Session.finish_eq {begun : List UInt8} (h : lineFeed ∉ begun) (source : Source)
    (s : Session) :
    s.finish settings source begun =
      match ((lines begun.reverse).filter source.reads).foldlM (Session.answer settings) s with
      | .ok s => s.finish settings source []
      | .error s => s.stop (some .write) := by
  rw [lines_of_notMem fun hm => h (List.mem_reverse.mp hm), List.isEmpty_reverse]
  cases begun with
  | nil => rfl
  | cons b begun =>
    have hl : (if (b :: begun).isEmpty then [] else [Line.mk (b :: begun).reverse false]) =
        [⟨(b :: begun).reverse, false⟩] := rfl
    rw [hl]
    unfold Session.finish
    cases hf : source.readFails with
    | true =>
      rw [List.filter_cons_of_neg (by simp [Source.reads, hf])]
      rfl
    | false =>
      rw [List.filter_cons_of_pos (by simp [Source.reads, hf]), List.filter_nil, List.foldlM_cons]
      cases s.answer settings ⟨(b :: begun).reverse, false⟩ <;> rfl

/-- **Reading finds the lines.** The bytes of a line that has begun count as bytes before those that
are still to be read. -/
theorem Session.read_eq {begun : List UInt8} (h : lineFeed ∉ begun) (source : Source) (s : Session)
    (bytes : List UInt8) :
    s.read settings source begun bytes =
      match ((lines (begun.reverse ++ bytes)).filter source.reads).foldlM
          (Session.answer settings) s with
      | .ok s => s.finish settings source []
      | .error s => s.stop (some .write) := by
  induction bytes generalizing begun s with
  | nil =>
    rw [Session.read, List.append_nil]
    exact Session.finish_eq h source s
  | cons b rest ih =>
    unfold Session.read
    by_cases hb : b = lineFeed
    · -- The line ends here, and of the next one nothing has been read.
      subst hb
      have hr : lineFeed ∉ begun.reverse := fun hm => h (List.mem_reverse.mp hm)
      rw [if_pos rfl, lines_append_lineFeed hr, List.filter_cons_of_pos (by rfl), List.foldlM_cons]
      cases s.answer settings ⟨begun.reverse, true⟩ with
      | error s => rfl
      | ok s => exact ih List.not_mem_nil s
    · -- The byte moves to those of the line that has begun.
      have hm : lineFeed ∉ b :: begun := by simp [h, Ne.symm hb]
      rw [if_neg hb, ih hm, List.reverse_cons, List.append_assoc, List.singleton_append]

/-! ### Runs -/

theorem run_eq (settings : Settings) (current : Path) (source : Source) :
    run settings current source =
      match source.lines.foldlM (Session.answer settings) (.start current source) with
      | .ok s => s.finish settings source []
      | .error s => s.stop (some .write) := by
  unfold run
  rw [Session.read_eq List.not_mem_nil]
  rfl

/-- At the end there is nothing more to write. -/
theorem Session.finish_nil (settings : Settings) (source : Source) (s : Session) :
    (s.finish settings source []).output = s.writer.written ∧
      (s.finish settings source []).stats = s.stats ∧
      (s.finish settings source []).path = s.path ∧
      (s.finish settings source []).fault = source.faultAtEnd := by
  unfold Session.finish Session.flush Source.faultAtEnd
  rcases source with ⟨input, readFails, room, flushFails⟩
  cases readFails <;> cases flushFails <;> exact ⟨rfl, rfl, rfl, rfl⟩

/-- **A run with room for all** comes to the block of all its lines. -/
theorem run_of_le (settings : Settings) (current : Path) (source : Source)
    (h : ∀ n ∈ source.room, (blockOfLines settings current source.lines).output.length ≤ n) :
    let block := blockOfLines settings current source.lines
    let result := run settings current source
    result.output = block.output ∧ result.stats = block.stats ∧ result.path = block.path ∧
      result.fault = source.faultAtEnd := by
  intro block result
  obtain ⟨rest, hw⟩ := Writer.write_of_le h
  have ha : source.lines.foldlM (Session.answer settings) (.start current source) =
      .ok ((Session.start current source).after block ⟨block.output, rest⟩) :=
    Session.answer_lines_of_ok hw
  have hr : result = _ := (run_eq settings current source).trans (by rw [ha])
  obtain ⟨ho, hs, hp, hf⟩ := Session.finish_nil settings source
    ((Session.start current source).after block ⟨block.output, rest⟩)
  rw [hr]
  exact ⟨ho, hs.trans (Stats.zero_add _), hp, hf⟩

/-- **A run with less room** fills it, and comes to the path of the first lines that do not fit. -/
theorem run_of_lt (settings : Settings) (current : Path) (source : Source) {n : Nat}
    (hn : source.room = some n)
    (h : n < (blockOfLines settings current source.lines).output.length) :
    let result := run settings current source
    result.output = (blockOfLines settings current source.lines).output.take n ∧
      result.fault = some .write ∧
      ∃ front line rest, source.lines = front ++ line :: rest ∧
        (blockOfLines settings current front).output.length ≤ n ∧
        n < (blockOfLines settings current (front ++ [line])).output.length ∧
        result.path = (blockOfLines settings current (front ++ [line])).path := by
  intro result
  have hstart : (Session.start current source).writer = ⟨[], some n⟩ := by
    rw [← hn]
    rfl
  have hw : (Session.start current source).writer.write
      (blockOfLines settings current source.lines).output = .error _ :=
    hstart ▸ Writer.write_of_lt h
  obtain ⟨front, line, rest, v, hl, hv, hlast, ha⟩ := Session.answer_lines_of_error hw
  -- What is written in full and what is not tell where the room ends.
  have hr : result = _ := (run_eq settings current source).trans (by rw [ha])
  have hfront : (blockOfLines settings current front).output.length ≤ n := by
    refine Nat.le_of_not_lt fun hlt => ?_
    have he := (hstart ▸ Writer.write_of_lt hlt).symm.trans hv
    cases he
  have hline : n < (blockOfLines settings current (front ++ [line])).output.length := by
    refine Nat.lt_of_not_le fun hle => ?_
    obtain ⟨later, ho⟩ := @Writer.write_of_le (some n)
      (blockOfLines settings current (front ++ [line])).output (by simpa using hle)
    have he := (hstart ▸ ho).symm.trans hlast
    cases he
  rw [hr]
  exact ⟨rfl, rfl, front, line, rest, hl, hfront, hline, rfl⟩

end TestTree.Console
