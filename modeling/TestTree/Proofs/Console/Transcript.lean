import TestTree.Proofs.Console.Counts

/-! # What the settings change

A run is told in full by its transcript: the events of each report and, in their place, the contents
of all other lines. The settings say how an entry is written and whether lines that are no reports
are written at all (`output_eq`), and nothing else. `run_settings`: the counts and the path of a run
are the same in all settings, and what is written without other lines is what is written with them
less the lines that are no events. -/

namespace TestTree.Console

/-- What stands on a line that is written: an event, or the content of a line that is no report. -/
inductive Entry where
  | event (e : Event)
  | echo (content : List UInt8)

/-- The entry is an event. -/
def Entry.isEvent : Entry → Bool
  | event _ => true
  | echo _ => false

/-- The bytes of an entry, without a line feed. -/
def Entry.bytes (format : Format) : Entry → List UInt8
  | event e => Text.Utf8.encode (format.render e).toList
  | echo content => content

/-- The line of an entry. -/
def Entry.line (format : Format) (entry : Entry) : Line := ⟨entry.bytes format, true⟩

/-- The entry is written. -/
def Entry.isShown (settings : Settings) (entry : Entry) : Bool :=
  entry.isEvent || settings.passthrough

/-- The entries for a line, as it turns out. -/
def Line.entries (line : Line) : Progress.Outcome → List Entry
  | .report events => events.map .event
  | .console | .malformed _ => [.echo line.content]

/-- The entries for lines. -/
def transcript (current : Path) (all : List Line) : List Entry :=
  (verdicts current all).flatMap fun p => p.1.entries p.2

/-! ### One line -/

/-- **The answer to a line** is what is shown of its entries. -/
theorem answer_eq (settings : Settings) (line : Line) (outcome : Progress.Outcome) :
    line.answer settings outcome = ((line.entries outcome).filter (·.isShown settings)).flatMap
      fun entry => entry.bytes settings.format ++ [lineFeed] := by
  have hecho : (if settings.passthrough then line.content ++ [lineFeed] else []) =
      ([Entry.echo line.content].filter (·.isShown settings)).flatMap
        fun entry => entry.bytes settings.format ++ [lineFeed] := by
    cases hp : settings.passthrough <;> simp [Entry.isShown, Entry.isEvent, Entry.bytes, hp]
  cases outcome with
  | report events =>
    have hall : (events.map Entry.event).filter (·.isShown settings) = events.map .event :=
      List.filter_eq_self.mpr fun entry he => by
        obtain ⟨e, -, rfl⟩ := List.mem_map.mp he
        rfl
    rw [Line.entries, hall, List.flatMap_map]
    rfl
  | console => exact hecho
  | malformed m => exact hecho

/-- The entries of a line that are no events: one if the line is no report, and none if it is. -/
theorem filter_entries (line : Line) (outcome : Progress.Outcome) :
    (line.entries outcome).filter (!·.isEvent) =
      if outcome.isReport then [] else [.echo line.content] := by
  cases outcome with
  | report events =>
    refine List.filter_eq_nil_iff.mpr fun entry he => ?_
    obtain ⟨e, -, rfl⟩ := List.mem_map.mp he
    exact Bool.false_ne_true
  | console => rfl
  | malformed m => rfl

theorem lineFeed_notMem_bytes {line : Line} (h : lineFeed ∉ line.bytes) {outcome : Progress.Outcome}
    (format : Format) {entry : Entry} (he : entry ∈ line.entries outcome) :
    lineFeed ∉ entry.bytes format := by
  have hecho : entry ∈ [Entry.echo line.content] → lineFeed ∉ entry.bytes format := by
    intro hm
    obtain rfl := List.mem_singleton.mp hm
    exact lineFeed_notMem_content h
  cases outcome with
  | report events =>
    obtain ⟨e, -, rfl⟩ := List.mem_map.mp he
    exact lineFeed_notMem_render format e
  | console => exact hecho he
  | malformed m => exact hecho he

/-! ### All lines -/

/-- **What is written** is what the settings show of the transcript. -/
theorem output_eq (settings : Settings) (current : Path) (all : List Line) :
    (blockOfLines settings current all).output =
      ((transcript current all).filter (·.isShown settings)).flatMap
        fun entry => entry.bytes settings.format ++ [lineFeed] := by
  rw [(blockOfLines_eq settings current all).1, transcript, List.filter_flatMap, List.flatMap_assoc]
  exact List.flatMap_congr fun p _ => answer_eq settings p.1 p.2

/-- **The lines that are written** are the entries that are shown. -/
theorem lines_output (settings : Settings) (current : Path) (input : List UInt8) :
    lines (run settings current (.unfailing input)).output =
      ((transcript current (lines input)).filter (·.isShown settings)).map
        (Entry.line settings.format) := by
  have hn : ∀ entry ∈ transcript current (lines input), lineFeed ∉ entry.bytes settings.format := by
    intro entry he
    obtain ⟨p, hp, he⟩ := List.mem_flatMap.mp he
    have hl : p.1 ∈ lines input :=
      map_fst_verdicts current (lines input) ▸ List.mem_map_of_mem hp
    exact lineFeed_notMem_bytes (lineFeed_notMem_of_mem_lines hl) settings.format he
  rw [(run_unfailing settings current input).1, output_eq,
    ← List.flatMap_map (fun entry : Entry => entry.bytes settings.format) (· ++ [lineFeed]),
    lines_flatMap, List.map_map]
  · rfl
  · intro bytes hb
    obtain ⟨entry, he, rfl⟩ := List.mem_map.mp hb
    exact hn entry (List.mem_of_mem_filter he)

/-- **The entries that are no events** are the lines that are no reports, in order. -/
theorem filter_transcript (current : Path) (all : List Line) :
    (transcript current all).filter (!·.isEvent) =
      ((verdicts current all).filter (!·.2.isReport)).map fun p => .echo p.1.content := by
  rw [transcript, List.filter_flatMap]
  induction verdicts current all with
  | nil => rfl
  | cons p rest ih =>
    rw [List.flatMap_cons, ih, filter_entries]
    cases hr : p.2.isReport <;> simp [hr]

theorem Stats.others_ofOutcome (outcome : Progress.Outcome) :
    (ofOutcome outcome).passthrough + (ofOutcome outcome).rejected =
      if outcome.isReport then 0 else 1 := by
  cases outcome <;> rfl

/-- As many lines are counted as other lines as there are lines that are no reports. -/
theorem Stats.others_sum (all : List (Line × Progress.Outcome)) :
    (all.map fun p => ofOutcome p.2).sum.passthrough +
        (all.map fun p => ofOutcome p.2).sum.rejected =
      (all.filter (!·.2.isReport)).length := by
  induction all with
  | nil => rfl
  | cons p rest ih =>
    have hp := others_ofOutcome p.2
    rw [List.map_cons, List.sum_cons, passthrough_add, rejected_add, List.filter_cons]
    cases hr : p.2.isReport with
    | true =>
      rw [hr, if_pos rfl] at hp
      rw [if_neg (by simp), ← ih]
      omega
    | false =>
      rw [hr, if_neg Bool.false_ne_true] at hp
      rw [if_pos (by simp), List.length_cons, ← ih]
      omega

/-- **The settings of a run** change nothing but what is written. In all settings the counts and the
path are the same. The lines that are written with other lines are the entries of the transcript,
and those written without other lines are its events, in the same order and written in the same way.
The entries that are left out are the lines that are no reports, as many as were counted. -/
theorem run_settings (current : Path) (input : List UInt8) :
    (∀ settings other : Settings,
      let result := run settings current (.unfailing input)
      let same := run other current (.unfailing input)
      result.fault = none ∧ same.fault = none ∧ result.stats = same.stats ∧
        result.path = same.path) ∧
    ∀ format : Format,
      let full := run ⟨format, true⟩ current (.unfailing input)
      let quiet := run ⟨format, false⟩ current (.unfailing input)
      let entries := transcript current (lines input)
      lines full.output = entries.map (Entry.line format) ∧
        lines quiet.output = (entries.filter (·.isEvent)).map (Entry.line format) ∧
        entries.filter (!·.isEvent) =
          ((verdicts current (lines input)).filter (!·.2.isReport)).map
            (fun p => .echo p.1.content) ∧
        (entries.filter (!·.isEvent)).length = full.stats.passthrough + full.stats.rejected := by
  have hstats (settings : Settings) : (run settings current (.unfailing input)).stats =
      ((verdicts current (lines input)).map fun p => Stats.ofOutcome p.2).sum :=
    (run_unfailing settings current input).2.1.trans (blockOfLines_eq _ _ _).2
  have hpath (settings : Settings) :
      (run settings current (.unfailing input)).path = pathOver current (lines input) :=
    (run_unfailing settings current input).2.2.1.trans (path_blockOfLines _ _ _)
  have hfault (settings : Settings) : (run settings current (.unfailing input)).fault = none :=
    (run_unfailing settings current input).2.2.2
  refine ⟨fun settings other => ⟨hfault settings, hfault other,
    (hstats settings).trans (hstats other).symm, (hpath settings).trans (hpath other).symm⟩,
    fun format => ?_⟩
  intro full quiet entries
  refine ⟨?_, ?_, filter_transcript current (lines input), ?_⟩
  · have hl : lines full.output = _ := lines_output ⟨format, true⟩ current input
    rw [hl, List.filter_eq_self.mpr fun entry _ => Bool.or_true entry.isEvent]
  · have hl : lines quiet.output = _ := lines_output ⟨format, false⟩ current input
    rw [hl, List.filter_congr fun entry _ => Bool.or_false entry.isEvent]
  · rw [hstats, Stats.others_sum, filter_transcript, List.length_map]

end TestTree.Console
