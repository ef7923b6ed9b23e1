import TestTree.Proofs.Console.Render
import TestTree.Proofs.Console.Run

/-! # Reading back what a feed writes

A feed that writes events as JSON and nothing else writes each on a line of its own. `event_lines`:
cut into lines and read line by line, its output gives exactly the events of the texts that it was
fed, in order. It needs of the JSON form that an event is read back from it and that it is one line
(`lines_flatMap_line`), whatever the strings in the event are. -/

namespace TestTree.Console

/-- The event that a line is, if it is one. -/
def Line.event? (line : Line) : Option Event :=
  match Text.Utf8.read line.bytes with
  | .ok text => Event.readText? text
  | .error _ => none

/-! ### One event -/

theorem readText?_render (e : Event) :
    Event.readText? (Format.json.render e).toList = some e :=
  Event.readText?_compact e

theorem notMem_render (e : Event) {c : Char} (hc : c.toNat < 0x20) :
    c ∉ (Format.json.render e).toList :=
  Event.notMem_compact e hc

theorem event?_encode_render (e : Event) (terminated : Bool) :
    Line.event? ⟨Text.Utf8.encode (Format.json.render e).toList, terminated⟩ = some e := by
  rw [Line.event?, Text.Utf8.read_encode]
  exact readText?_render e

/-! ### All events -/

/-- **What a feed writes as JSON is read back.** The text of an event has no line feed and no
carriage return, and reading it gives the event. So the lines that a run without faults writes, read
as events, are the events of the texts of the lines that it was fed. -/
theorem event_lines :
    (∀ e : Event, '\n' ∉ (Format.json.render e).toList ∧ '\r' ∉ (Format.json.render e).toList ∧
      Event.readText? (Format.json.render e).toList = some e) ∧
    ∀ (current : Path) (input : List UInt8),
      let result := run ⟨.json, false⟩ current (.unfailing input)
      let steps := Progress.acceptAll current ((lines input).filterMap Line.text?)
      result.fault = none ∧ (∀ line ∈ lines result.output, line.terminated) ∧
        (lines result.output).map Line.event? = (steps.flatMap (·.outcome.events)).map some := by
  refine ⟨fun e => ⟨notMem_render e (by decide), notMem_render e (by decide), readText?_render e⟩,
    fun current input => ?_⟩
  intro result steps
  obtain ⟨ho, -, -, hf⟩ := run_unfailing ⟨.json, false⟩ current input
  have hr : result.output = (steps.flatMap (·.outcome.events)).flatMap Format.json.line :=
    ho.trans (output_blockOfLines rfl current (lines input))
  have hl : lines result.output = (steps.flatMap (·.outcome.events)).map fun e =>
      ⟨Text.Utf8.encode (Format.json.render e).toList, true⟩ := by
    rw [hr, lines_flatMap_line]
  refine ⟨hf, fun line hm => ?_, ?_⟩
  · rw [hl] at hm
    obtain ⟨e, -, rfl⟩ := List.mem_map.mp hm
    rfl
  · rw [hl, List.map_map]
    refine List.map_congr_left ?_
    intro e _
    rw [Function.comp_apply]
    exact event?_encode_render e true

end TestTree.Console
