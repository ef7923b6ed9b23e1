import TestTree.Proofs.Console.Run

/-! # A stream in parts

A stream can be cut where a line ends and be fed to one run after the other. `run_parts`: what the
runs write one after the other, what they count together and the path that the last one comes to are
those of one run over the whole stream. All that a run leaves to the next one is the path, and the
block of the lines of both is the block of the lines of the first and then, from its path, of the
second (`run_append`). -/

namespace TestTree.Console

variable (settings : Settings)

/-- **Two parts** of a stream. -/
theorem run_append (current : Path) {front : List UInt8} (h : AtLineEnd front)
    (rest : List UInt8) :
    let first := run settings current (.unfailing front)
    let second := run settings first.path (.unfailing rest)
    let whole := run settings current (.unfailing (front ++ rest))
    whole.output = first.output ++ second.output ∧ whole.stats = first.stats + second.stats ∧
      whole.path = second.path := by
  intro first second whole
  obtain ⟨hwo, hws, hwp, -⟩ := run_unfailing settings current (front ++ rest)
  obtain ⟨hfo, hfs, hfp, -⟩ := run_unfailing settings current front
  obtain ⟨hso, hss, hsp, -⟩ := run_unfailing settings first.path rest
  rw [lines_append h, blockOfLines_append, ← hfp] at hwo hws hwp
  refine ⟨?_, ?_, hwp.trans hsp.symm⟩
  · rw [hwo, Block.output_andThen, ← hfo, ← hso]
  · exact hws.trans (congrArg₂ (· + ·) hfs.symm hss.symm)

theorem pathAfter_cons (current : Path) (result : Result) (later : List Result) :
    pathAfter current (result :: later) = pathAfter result.path later := by
  unfold pathAfter
  rw [List.getLast?_cons]
  cases later.getLast? <;> rfl

/-- **Any number of parts** of a stream, of which the last may end anywhere. -/
theorem runAll_parts (current : Path) {parts : List (List UInt8)}
    (h : ∀ part ∈ parts.dropLast, AtLineEnd part) :
    let results := runAll settings current (parts.map .unfailing)
    let whole := run settings current (.unfailing parts.flatten)
    whole.output = results.flatMap (·.output) ∧ whole.stats = (results.map (·.stats)).sum ∧
      whole.path = pathAfter current results := by
  induction parts generalizing current with
  | nil => exact ⟨rfl, rfl, rfl⟩
  | cons part rest ih =>
    intro results whole
    let first := run settings current (.unfailing part)
    have hr : results = first :: runAll settings first.path (rest.map .unfailing) := rfl
    rw [hr, List.flatMap_cons, List.map_cons, List.sum_cons, pathAfter_cons]
    -- Only a part that another one follows has to end where a line does.
    rcases rest with - | ⟨next, rest⟩
    · have hw : whole = first := congrArg (fun bytes => run settings current (.unfailing bytes))
        (List.append_nil part)
      rw [hw]
      exact ⟨(List.append_nil _).symm, (Stats.add_zero _).symm, rfl⟩
    · have hp : AtLineEnd part := h part List.mem_cons_self
      obtain ⟨io, is, ip⟩ := ih first.path fun p hm => h p (List.mem_cons_of_mem part hm)
      obtain ⟨ho, hs, hp⟩ := run_append settings current hp (next :: rest).flatten
      exact ⟨ho.trans (by rw [io]), hs.trans (by rw [is]), hp.trans ip⟩

/-- **A stream in parts** is fed as it would be at once, be there two parts or any number of them,
as long as each part but the last ends where a line does. -/
theorem run_parts (current : Path) :
    (∀ front rest, AtLineEnd front →
      let first := run settings current (.unfailing front)
      let second := run settings first.path (.unfailing rest)
      let whole := run settings current (.unfailing (front ++ rest))
      whole.output = first.output ++ second.output ∧ whole.stats = first.stats + second.stats ∧
        whole.path = second.path) ∧
      ∀ parts : List (List UInt8), (∀ part ∈ parts.dropLast, AtLineEnd part) →
        let results := runAll settings current (parts.map .unfailing)
        let whole := run settings current (.unfailing parts.flatten)
        whole.output = results.flatMap (·.output) ∧ whole.stats = (results.map (·.stats)).sum ∧
          whole.path = pathAfter current results :=
  ⟨fun _ rest h => run_append settings current h rest, fun _ h => runAll_parts settings current h⟩

/-- A test in a suite that stays open. -/
def openSuite : List UInt8 := Text.Utf8.encode
  ("\x7b\"event\":\"testCompleted\",\"status\":\"pass\",\"labels\":[\"M\",\"t\"]," ++
    "\"failures\":[],\"duration\":\"2\"\x7d\r\n").toList

/-- The end of a run, on a line without a line feed. -/
def closeSuite : List UInt8 := Text.Utf8.encode "\x7b\"event\":\"runComplete\"\x7d".toList

theorem atLineEnd_openSuite : AtLineEnd openSuite := .inr rfl

theorem path_openSuite :
    (run ⟨.teamcity, true⟩ .root (.unfailing openSuite)).path.labels = ["M", "t"] := by rfl

/-- The suite that the first part opens is known to the second one. -/
theorem openSuite_run_parts :
    let first := run ⟨.teamcity, true⟩ .root (.unfailing openSuite)
    let second := run ⟨.teamcity, true⟩ first.path (.unfailing closeSuite)
    let whole := run ⟨.teamcity, true⟩ .root (.unfailing (openSuite ++ closeSuite))
    let parts := [openSuite, [], closeSuite]
    (AtLineEnd openSuite ∧ first.path.labels = ["M", "t"] ∧
      whole.output = first.output ++ second.output ∧ whole.stats = first.stats + second.stats ∧
        whole.path = second.path) ∧
      (∀ part ∈ parts.dropLast, AtLineEnd part) ∧
        (run ⟨.teamcity, true⟩ .root (.unfailing parts.flatten)).path =
          pathAfter .root (runAll ⟨.teamcity, true⟩ .root (parts.map .unfailing)) := by
  have hs : AtLineEnd openSuite := atLineEnd_openSuite
  have hp : ∀ part ∈ [openSuite, [], closeSuite].dropLast, AtLineEnd part := by
    intro part hm
    rcases List.mem_cons.mp hm with rfl | hm
    · exact hs
    · exact .inl (List.mem_singleton.mp hm)
  obtain ⟨htwo, hany⟩ := run_parts ⟨.teamcity, true⟩ .root
  have h1 := htwo openSuite closeSuite hs
  have h2 := hany [openSuite, [], closeSuite] hp
  refine ⟨⟨hs, ?_, ?_⟩, hp, ?_⟩
  · exact path_openSuite
  · exact h1
  · exact h2.2.2

end TestTree.Console
