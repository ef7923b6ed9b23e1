import TestTree.Console.Line
import TestTree.Proofs.Text.Split
import Mathlib.Data.List.DropRight

/-! # Cutting streams into lines

A stream that ends where a line does can be continued by another one: the lines of both are those of
the first and then those of the second (`lines_append`). So lines that were written one after the
other are found again (`lines_flatMap`), and only the part of a stream after its last line feed is a
line without one (`filter_terminated_lines`). There are as many lines as line feeds, and one more if
the stream does not end where a line does (`length_lines`). Lines that are picked out of a stream,
its first ones or any others, are the lines of their own bytes (`lines_toBytes_of_sublist`,
`lines_toBytes_of_append`). -/

namespace TestTree.Console

/-! ### Fields and lines -/

theorem linesOf_append (first next : List UInt8) (later more : List (List UInt8)) :
    linesOf first (later ++ next :: more) =
      (first :: later).map (⟨·, true⟩) ++ linesOf next more := by
  induction later generalizing first with
  | nil => rfl
  | cons second later ih =>
    rw [List.cons_append, linesOf, ih]
    rfl

theorem lines_append_lineFeed_append (bytes rest : List UInt8) :
    lines (bytes ++ lineFeed :: rest) =
      ((Text.fields lineFeed bytes).1 :: (Text.fields lineFeed bytes).2).map (⟨·, true⟩) ++
        lines rest := by
  unfold lines
  rw [Text.fields_append_separator]
  exact linesOf_append _ _ _ _

theorem lines_of_notMem {bytes : List UInt8} (h : lineFeed ∉ bytes) :
    lines bytes = if bytes.isEmpty then [] else [⟨bytes, false⟩] := by
  unfold lines
  rw [Text.fields_of_notMem h]
  rfl

theorem lines_append_lineFeed {bytes : List UInt8} (h : lineFeed ∉ bytes) (rest : List UInt8) :
    lines (bytes ++ lineFeed :: rest) = ⟨bytes, true⟩ :: lines rest := by
  rw [lines_append_lineFeed_append, Text.fields_of_notMem h]
  rfl

theorem mem_linesOf {line : Line} {first : List UInt8} {later : List (List UInt8)}
    (h : line ∈ linesOf first later) : line.bytes = first ∨ line.bytes ∈ later := by
  induction later generalizing first with
  | nil =>
    unfold linesOf at h
    split at h
    · cases h
    · obtain rfl := List.mem_singleton.mp h
      exact .inl rfl
  | cons next later ih =>
    rcases List.mem_cons.mp h with rfl | h
    · exact .inl rfl
    · rcases ih h with h | h
      · exact .inr (h ▸ List.mem_cons_self)
      · exact .inr (List.mem_cons_of_mem next h)

/-- **A line has no line feed** but the one that ends it. -/
theorem lineFeed_notMem_of_mem_lines {bytes : List UInt8} {line : Line} (h : line ∈ lines bytes) :
    lineFeed ∉ line.bytes := by
  obtain ⟨hf, hl⟩ := Text.notMem_fields lineFeed bytes
  rcases mem_linesOf h with h | h
  · rw [h]
    exact hf
  · exact hl _ h

/-- **Lines are found again.** -/
theorem lines_flatMap {all : List (List UInt8)} (h : ∀ bytes ∈ all, lineFeed ∉ bytes) :
    lines (all.flatMap (· ++ [lineFeed])) = all.map (⟨·, true⟩) := by
  induction all with
  | nil => rfl
  | cons bytes rest ih =>
    have hb : lineFeed ∉ bytes := h bytes List.mem_cons_self
    rw [List.flatMap_cons, List.append_assoc, List.singleton_append, lines_append_lineFeed hb,
      ih fun b hm => h b (List.mem_cons_of_mem bytes hm), List.map_cons]

/-! ### Streams that end where a line does -/

theorem AtLineEnd.eq_append {bytes : List UInt8} (h : AtLineEnd bytes) :
    bytes = [] ∨ ∃ front, bytes = front ++ [lineFeed] := by
  refine h.imp_right fun hl => ?_
  obtain ⟨front, rfl⟩ := List.getLast?_eq_some_iff.mp hl
  exact ⟨front, rfl⟩

/-- **A stream that ends where a line does** and the one after it are cut each on its own. -/
theorem lines_append {bytes : List UInt8} (h : AtLineEnd bytes) (rest : List UInt8) :
    lines (bytes ++ rest) = lines bytes ++ lines rest := by
  rcases h.eq_append with rfl | ⟨front, rfl⟩
  · rfl
  · have hn : lines [] = [] := rfl
    rw [List.append_assoc, List.singleton_append, lines_append_lineFeed_append,
      lines_append_lineFeed_append, hn, List.append_nil]

theorem terminated_of_atLineEnd {bytes : List UInt8} (h : AtLineEnd bytes) {line : Line}
    (hm : line ∈ lines bytes) : line.terminated = true := by
  rcases h.eq_append with rfl | ⟨front, rfl⟩
  · cases hm
  · have hn : lines [] = [] := rfl
    rw [lines_append_lineFeed_append, hn, List.append_nil] at hm
    obtain ⟨field, -, rfl⟩ := List.mem_map.mp hm
    rfl

/-! ### The last line feed -/

/-- The part of a stream up to its last line feed, with that. -/
def wholeLines (bytes : List UInt8) : List UInt8 := bytes.rdropWhile (· ≠ lineFeed)

/-- The part of a stream after its last line feed. -/
def lineBegun (bytes : List UInt8) : List UInt8 := bytes.rtakeWhile (· ≠ lineFeed)

theorem wholeLines_append_lineBegun (bytes : List UInt8) :
    wholeLines bytes ++ lineBegun bytes = bytes :=
  List.rdropWhile_append_rtakeWhile

theorem atLineEnd_wholeLines (bytes : List UInt8) : AtLineEnd (wholeLines bytes) := by
  by_cases h : wholeLines bytes = []
  · exact .inl h
  · have hl := List.rdropWhile_last_not (· ≠ lineFeed) bytes h
    rw [decide_eq_true_eq, not_not] at hl
    exact .inr (by rw [List.getLast?_eq_some_getLast h]; exact congrArg some hl)

theorem lineFeed_notMem_lineBegun (bytes : List UInt8) : lineFeed ∉ lineBegun bytes := by
  intro h
  simpa using List.mem_rtakeWhile_imp h

theorem lineBegun_eq_nil_iff {bytes : List UInt8} : lineBegun bytes = [] ↔ AtLineEnd bytes := by
  constructor
  · intro h
    rw [← wholeLines_append_lineBegun bytes, h, List.append_nil]
    exact atLineEnd_wholeLines bytes
  · intro h
    rw [lineBegun, List.rtakeWhile_eq_nil_iff]
    intro hb
    have hl : bytes.getLast hb = lineFeed := by
      have hs := h.resolve_left hb
      rw [List.getLast?_eq_some_getLast hb] at hs
      exact Option.some.inj hs
    simp [hl]

theorem lines_eq_append (bytes : List UInt8) :
    lines bytes = lines (wholeLines bytes) ++
      if (lineBegun bytes).isEmpty then [] else [⟨lineBegun bytes, false⟩] := by
  rw [← lines_of_notMem (lineFeed_notMem_lineBegun bytes),
    ← lines_append (atLineEnd_wholeLines bytes), wholeLines_append_lineBegun]

/-- **The lines that are terminated** are those up to the last line feed. -/
theorem filter_terminated_lines (bytes : List UInt8) :
    (lines bytes).filter (·.terminated) = lines (wholeLines bytes) := by
  have hw : (lines (wholeLines bytes)).filter (·.terminated) = lines (wholeLines bytes) :=
    List.filter_eq_self.mpr fun _ => terminated_of_atLineEnd (atLineEnd_wholeLines bytes)
  rw [lines_eq_append bytes, List.filter_append, hw]
  split <;> simp

/-- **The number of lines.** -/
theorem length_lines (bytes : List UInt8) :
    (lines bytes).length = bytes.count lineFeed + if AtLineEnd bytes then 0 else 1 := by
  have hc : (wholeLines bytes).count lineFeed = (lines (wholeLines bytes)).length := by
    have ht : ∀ line ∈ lines (wholeLines bytes), (List.count lineFeed ∘ Line.toBytes) line = 1 := by
      intro line hm
      have hterminated := terminated_of_atLineEnd (atLineEnd_wholeLines bytes) hm
      rw [Function.comp_apply, Line.toBytes, if_pos hterminated, List.count_append,
        List.count_eq_zero.mpr (lineFeed_notMem_of_mem_lines hm)]
      rfl
    conv_lhs => rw [← flatMap_toBytes_lines (wholeLines bytes), List.count_flatMap]
    rw [List.map_congr_left ht, List.map_const', List.sum_replicate_nat, Nat.mul_one]
  have hb : (lineBegun bytes).count lineFeed = 0 :=
    List.count_eq_zero.mpr (lineFeed_notMem_lineBegun bytes)
  conv_rhs => rw [← wholeLines_append_lineBegun bytes, List.count_append, hc, hb, Nat.add_zero]
  rw [lines_eq_append, List.length_append, wholeLines_append_lineBegun]
  congr 1
  by_cases h : AtLineEnd bytes
  · rw [if_pos h, lineBegun_eq_nil_iff.mpr h]
    rfl
  · have hn : (lineBegun bytes).isEmpty = false := by
      rw [List.isEmpty_eq_false_iff, ne_eq, lineBegun_eq_nil_iff]
      exact h
    rw [if_neg h, hn]
    rfl

/-! ### Lines of a stream -/

/-- A line that another one follows is terminated. -/
theorem pairwise_terminated_lines (bytes : List UInt8) :
    (lines bytes).Pairwise fun line _ => line.terminated = true := by
  have hw : ∀ line ∈ lines (wholeLines bytes), line.terminated = true := fun _ =>
    terminated_of_atLineEnd (atLineEnd_wholeLines bytes)
  have hb : (if (lineBegun bytes).isEmpty then [] else [Line.mk (lineBegun bytes) false]).Pairwise
      fun line _ => line.terminated = true := by
    split
    · exact .nil
    · exact List.pairwise_singleton _ _
  rw [lines_eq_append, List.pairwise_append]
  exact ⟨List.pairwise_of_forall_mem_list fun line hl _ _ => hw line hl, hb,
    fun line hl _ _ => hw line hl⟩

theorem toBytes_ne_nil_of_mem_lines {bytes : List UInt8} {line : Line} (h : line ∈ lines bytes) :
    line.toBytes ≠ [] := by
  rw [lines_eq_append, List.mem_append] at h
  rcases h with h | h
  · rw [Line.toBytes, if_pos (terminated_of_atLineEnd (atLineEnd_wholeLines bytes) h)]
    exact List.append_ne_nil_of_right_ne_nil _ (List.cons_ne_nil _ _)
  · split at h
    · cases h
    · next hb =>
      obtain rfl := List.mem_singleton.mp h
      simpa [Line.toBytes] using hb

/-- Lines that can be those of a stream are the lines of their own bytes. -/
theorem lines_flatMap_toBytes {all : List Line} (hn : ∀ line ∈ all, lineFeed ∉ line.bytes)
    (he : ∀ line ∈ all, line.toBytes ≠ [])
    (ht : all.Pairwise fun line _ => line.terminated = true) :
    lines (all.flatMap Line.toBytes) = all := by
  induction all with
  | nil => rfl
  | cons line rest ih =>
    obtain ⟨hline, hrest⟩ := List.pairwise_cons.mp ht
    obtain ⟨bytes, terminated⟩ := line
    have hb : lineFeed ∉ bytes := hn _ List.mem_cons_self
    have ih := ih (fun l hl => hn l (List.mem_cons_of_mem _ hl))
      (fun l hl => he l (List.mem_cons_of_mem _ hl)) hrest
    cases terminated with
    | true =>
      have hl : Line.toBytes ⟨bytes, true⟩ = bytes ++ [lineFeed] := rfl
      rw [List.flatMap_cons, hl, List.append_assoc, List.singleton_append,
        lines_append_lineFeed hb, ih]
    | false =>
      -- No line follows one that is not terminated.
      have hnil : rest = [] := List.eq_nil_iff_forall_not_mem.mpr fun l hl => by
        cases hline l hl
      have hne : bytes ≠ [] := he _ List.mem_cons_self
      have hl : Line.toBytes ⟨bytes, false⟩ = bytes := rfl
      rw [hnil, List.flatMap_cons, List.flatMap_nil, List.append_nil, hl, lines_of_notMem hb,
        if_neg (by simpa using hne)]

/-- **Some lines of a stream** are the lines of their own bytes. -/
theorem lines_toBytes_of_sublist {bytes : List UInt8} {kept : List Line}
    (h : kept.Sublist (lines bytes)) : lines (kept.flatMap Line.toBytes) = kept :=
  lines_flatMap_toBytes (fun _ hl => lineFeed_notMem_of_mem_lines (h.subset hl))
    (fun _ hl => toBytes_ne_nil_of_mem_lines (h.subset hl))
    ((pairwise_terminated_lines bytes).sublist h)

/-- **The first lines of a stream** are the lines of their own bytes. -/
theorem lines_toBytes_of_append {bytes : List UInt8} {front rest : List Line}
    (h : lines bytes = front ++ rest) : lines (front.flatMap Line.toBytes) = front :=
  lines_toBytes_of_sublist (h ▸ List.sublist_append_left front rest)

end TestTree.Console
