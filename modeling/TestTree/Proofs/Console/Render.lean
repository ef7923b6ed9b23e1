import TestTree.Console.Run
import TestTree.Proofs.Console.Line
import TestTree.Proofs.Event.Record
import TestTree.Proofs.Event.ServiceMessage
import TestTree.Proofs.Text.Ascii

/-! # Events are written on lines

In every format the text of an event has no line feed, whatever the strings in the event are
(`lineFeed_notMem_render`). So events that are written one after the other are as many lines as
events (`count_flatMap_line`), and cutting what was written into lines gives their texts
(`lines_flatMap_line`). -/

namespace TestTree.Console

/-- **The text of an event** is one line. -/
theorem lineFeed_notMem_render (format : Format) (e : Event) :
    lineFeed ∉ Text.Utf8.encode (format.render e).toList := by
  refine Text.Utf8.notMem_encode (by decide) ?_
  cases format with
  | teamcity => exact ServiceMessage.notMem_write (Event.isPlain_toServiceMessage e) (by decide)
  | json => exact Event.notMem_compact e (by decide)

theorem count_line (format : Format) (e : Event) : (format.line e).count lineFeed = 1 := by
  rw [Format.line, List.count_append, List.count_eq_zero.mpr (lineFeed_notMem_render format e)]
  rfl

theorem count_flatMap_line (format : Format) (events : List Event) :
    (events.flatMap format.line).count lineFeed = events.length := by
  induction events with
  | nil => rfl
  | cons e events ih =>
    rw [List.flatMap_cons, List.count_append, count_line, ih, List.length_cons, Nat.add_comm]

theorem lines_flatMap_line (format : Format) (events : List Event) :
    lines (events.flatMap format.line) =
      events.map fun e => ⟨Text.Utf8.encode (format.render e).toList, true⟩ := by
  have hl : events.flatMap format.line = (events.map fun e =>
      Text.Utf8.encode (format.render e).toList).flatMap (· ++ [lineFeed]) := by
    rw [List.flatMap_map]
    rfl
  rw [hl, lines_flatMap, List.map_map]
  · rfl
  · intro bytes hb
    obtain ⟨e, -, rfl⟩ := List.mem_map.mp hb
    exact lineFeed_notMem_render format e

end TestTree.Console
