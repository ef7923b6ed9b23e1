import TestTree.Proofs.Accept
import TestTree.Proofs.Path.Enclosing
import TestTree.Proofs.Report.Runner

/-! # Records of a runner between tests

What a record of a runner does after a test, for any other members that it has.

* `run_bounds`: the start of a run has no events, its end finishes the suites around the last test,
  and both lead back to the root, in every case.
* `completed_tests`: a completed test is read just if its members describe one, and then it is of no
  consequence how its duration is written. -/

namespace TestTree.Progress

open Report (IsEvent IsDuration Describes)

variable {text : List Char} {v : Json} {members : Json.Members}

/-- A text is the report that its value is read as. -/
theorem report?_of_read {report : Report} (hv : (readValue text).1 = some v)
    (hr : Report.read v = .ok (some report)) : report? text = some report :=
  report?_eq_some_iff.mpr ⟨v, hv, hr⟩

/-! ### The start and the end of a run -/

/-- There are no suites around the root. -/
theorem not_encloses_root (suite : Path) : ¬ suite.Encloses .root := by
  rintro ⟨hr, hs, -⟩
  exact hr (Path.ext (List.prefix_nil.mp hs))

theorem mem_closing_root_iff {suite current : Path} :
    suite ∈ current.closing .root ↔ suite.Encloses current := by
  rw [Path.mem_closing_iff, and_iff_left (not_encloses_root suite)]

theorem accept_runStart (hv : (readValue text).1 = some (.object members))
    (h : IsEvent "runStart" members) (current : Path) :
    (accept current text).outcome = .report [] ∧ (accept current text).path = .root := by
  obtain ⟨start, hs⟩ := Report.read_runStart h
  exact accept_of_report?_eq_some (report?_of_read hv hs) current

theorem accept_runComplete (hv : (readValue text).1 = some (.object members))
    (h : IsEvent "runComplete" members) (current : Path) :
    (accept current text).outcome = .report ((current.closing .root).map suiteFinished) ∧
      (accept current text).path = .root := by
  obtain ⟨complete, hc⟩ := Report.read_runComplete h
  exact accept_of_report?_eq_some (report?_of_read hv hc) current

/-- **The start and the end of a run** are accepted after any test, whatever the record tells of the
run. The start has no events. The end finishes the suites around the test, the innermost first. Both
lead to the root, so records of one name have one effect. -/
theorem run_bounds (hv : (readValue text).1 = some (.object members)) (current : Path) :
    (IsEvent "runStart" members →
        (accept current text).outcome = .report [] ∧ (accept current text).path = .root) ∧
      (IsEvent "runComplete" members →
        ∃ suites : List Path,
          (accept current text).outcome =
              .report (suites.map fun suite => .suiteFinished suite.name) ∧
            (accept current text).path = .root ∧
            (∀ suite, suite ∈ suites ↔ suite.Encloses current) ∧
            suites.Pairwise fun inner outer => outer.length < inner.length) ∧
      ∀ (name : String) (other : List Char) (others : Json.Members),
        name = "runStart" ∨ name = "runComplete" → IsEvent name members → IsEvent name others →
          (readValue other).1 = some (.object others) →
          (accept current other).outcome = (accept current text).outcome ∧
            (accept current other).path = (accept current text).path := by
  refine ⟨fun h => accept_runStart hv h current, fun h => ?_, ?_⟩
  · obtain ⟨ho, hp⟩ := accept_runComplete hv h current
    exact ⟨current.closing .root, ho, hp, fun suite => mem_closing_root_iff,
      Path.pairwise_closing current .root⟩
  · rintro name other others (rfl | rfl) h h' hv'
    · obtain ⟨ho, hp⟩ := accept_runStart hv h current
      obtain ⟨ho', hp'⟩ := accept_runStart hv' h' current
      exact ⟨ho'.trans ho.symm, hp'.trans hp.symm⟩
    · obtain ⟨ho, hp⟩ := accept_runComplete hv h current
      obtain ⟨ho', hp'⟩ := accept_runComplete hv' h' current
      exact ⟨ho'.trans ho.symm, hp'.trans hp.symm⟩

/-- The end of a run with values of all kinds where texts and files are expected. -/
def oddMembers : Json.Members :=
  [("autoFail", .array [.array []]), ("duration", .object []), ("event", .string "runComplete"),
    ("failed", .number (.integer (-1))), ("paths", .ofNat 7), ("type", .null)]

/-- The text of `oddMembers`. -/
def oddRunEnd : String :=
  "\x7b\"autoFail\":[[]],\"duration\":\x7b\x7d,\"event\":\"runComplete\",\"failed\":-1," ++
    "\"paths\":7,\"type\":null\x7d"

/-- The end of a run and nothing else. -/
def plainRunEnd : String := "\x7b\"event\":\"runComplete\"\x7d"

theorem oddRunEnd_finishes :
    let current := Path.ofLabels ["Main", "sums", "adds"]
    ∃ suites : List Path,
      (accept current oddRunEnd.toList).outcome =
          .report (suites.map fun suite => .suiteFinished suite.name) ∧
        Path.ofLabels ["Main"] ∈ suites ∧ Path.ofLabels ["Main", "sums"] ∈ suites ∧
        current ∉ suites ∧
        (accept current plainRunEnd.toList).outcome =
          (accept current oddRunEnd.toList).outcome := by
  intro current
  have hv : (readValue oddRunEnd.toList).1 = some (.object oddMembers) := rfl
  have hv' : (readValue plainRunEnd.toList).1 =
      some (.object [("event", .string "runComplete")]) := rfl
  have h := run_bounds hv current
  have he : IsEvent "runComplete" oddMembers :=
    ⟨rfl, fun tag => by simp [oddMembers, Json.Members.find?]⟩
  obtain ⟨suites, ho, -, hmem, -⟩ := h.2.1 he
  refine ⟨suites, ho, (hmem _).mpr (by decide), (hmem _).mpr (by decide), ?_, ?_⟩
  · rw [hmem]
    decide
  · have he' : IsEvent "runComplete" [("event", .string "runComplete")] :=
      ⟨rfl, fun tag => by simp [Json.Members.find?]⟩
    exact (h.2.2 _ plainRunEnd.toList _ (.inr rfl) he he' hv').1

/-! ### Completed tests -/

/-- Two objects write one duration in two ways, and have all else in common. -/
structure SameDuration (members others : Json.Members) : Prop where
  apart : ∀ key, key ≠ "duration" → others.find? key = members.find? key
  duration : ∃ d v w, members.find? "duration" = some v ∧ IsDuration v d ∧
    others.find? "duration" = some w ∧ IsDuration w d

/-- Both describe the same test, if one does: a value is the duration of one number only. -/
theorem describes_of_sameDuration {others : Json.Members} (h : SameDuration members others)
    {t : Report.TestCompleted} (ht : Describes members t) : Describes others t := by
  obtain ⟨d, v, w, hv, hvd, hw, hwd⟩ := h.duration
  have hd : t.duration = d := by
    rcases ht.duration with ⟨v', hv', hd⟩ | ⟨hn, -⟩
    · obtain rfl : v = v' := Option.some.inj (hv.symm.trans hv')
      have he := (Report.readDuration_eq_ok_iff.mpr hd).symm.trans
        (Report.readDuration_eq_ok_iff.mpr hvd)
      exact Except.ok.inj he
    · rw [hv] at hn
      cases hn
  refine ⟨?_, ?_, ?_, .inl ⟨w, hw, hd ▸ hwd⟩⟩
  · rw [h.apart _ (by decide)]
    exact ht.status
  · rw [h.apart _ (by decide)]
    exact ht.labels
  · rw [h.apart _ (by decide)]
    exact ht.failures

theorem isEvent_of_sameDuration {others : Json.Members} (h : SameDuration members others)
    {name : String} (he : IsEvent name members) : IsEvent name others := by
  refine ⟨?_, fun tag => ?_⟩
  · rw [h.apart _ (by decide)]
    exact he.event
  · rw [h.apart _ (by decide)]
    exact he.untyped tag

/-- **Completed tests.** A record of a completed test is read just if its members describe a test,
and as that test. Otherwise it is a mismatch. If it is read, the same record with its duration
written in another way is read as the same report, and has the same effect after any test. -/
theorem completed_tests (h : IsEvent "testCompleted" members) :
    (∀ report, Report.read (.object members) = .ok (some report) ↔
        ∃ t, Describes members t ∧ report = .runner (.testCompleted t)) ∧
      ((∀ t, ¬ Describes members t) → ∃ m, Report.read (.object members) = .error m) ∧
      Report.read (.object members) ≠ .ok none ∧
      ∀ t others, Describes members t → SameDuration members others →
        Report.read (.object others) = Report.read (.object members) ∧
          ∀ (current : Path) (text other : List Char),
            (readValue text).1 = some (.object members) →
            (readValue other).1 = some (.object others) →
            (accept current other).outcome = (accept current text).outcome ∧
              (accept current other).path = (accept current text).path := by
  refine ⟨fun report => Report.read_testCompleted_iff h, Report.exists_read_eq_error h, ?_, ?_⟩
  · intro hn
    by_cases hd : ∃ t, Describes members t
    · obtain ⟨t, ht⟩ := hd
      rw [(Report.read_testCompleted_iff h).mpr ⟨t, ht, rfl⟩] at hn
      cases hn
    · obtain ⟨m, hm⟩ := Report.exists_read_eq_error h fun t ht => hd ⟨t, ht⟩
      rw [hm] at hn
      cases hn
  · intro t others ht hs
    have hr := (Report.read_testCompleted_iff h).mpr ⟨t, ht, rfl⟩
    have hr' := (Report.read_testCompleted_iff (isEvent_of_sameDuration hs h)).mpr
      ⟨t, describes_of_sameDuration hs ht, rfl⟩
    refine ⟨hr'.trans hr.symm, fun current text other hv hv' => ?_⟩
    obtain ⟨ho, hp⟩ := accept_of_report?_eq_some (report?_of_read hv hr) current
    obtain ⟨ho', hp'⟩ := accept_of_report?_eq_some (report?_of_read hv' hr') current
    exact ⟨ho'.trans ho.symm, hp'.trans hp.symm⟩

/-- A completed test, with its status in the long form. -/
def completedTest (duration : Json) : Json.Members :=
  [("duration", duration), ("event", .string "testCompleted"),
    ("labels", .array [.string "Main", .string "adds"]), ("status", .object [("pass", .null)])]

/-- A duration between white space, with a sign and with zeros in front. -/
def paddedRecord : String :=
  "\x7b\"duration\":\" +007\\n\",\"event\":\"testCompleted\",\"labels\":[\"Main\",\"adds\"]," ++
    "\"status\":\x7b\"pass\":null\x7d\x7d"

/-- The same record with the duration as a number. -/
def numericRecord : String :=
  "\x7b\"duration\":7,\"event\":\"testCompleted\",\"labels\":[\"Main\",\"adds\"]," ++
    "\"status\":\x7b\"pass\":null\x7d\x7d"

theorem paddedRecord_accepted :
    Report.read (.object (completedTest (.string " +007\n"))) =
        .ok (some (.runner (.testCompleted ⟨.pass, ["Main", "adds"], [], 7⟩))) ∧
      (accept .root numericRecord.toList).outcome = (accept .root paddedRecord.toList).outcome := by
  have hpadded : IsDuration (.string " +007\n") 7 := Report.readDuration_eq_ok_iff.mp rfl
  have hs : SameDuration (completedTest (.string " +007\n")) (completedTest (.ofNat 7)) :=
    ⟨fun key hk => by simp only [completedTest, Json.Members.find?, if_neg hk.symm],
      7, _, _, rfl, hpadded, rfl, .number 7⟩
  have ht : Describes (completedTest (.string " +007\n")) ⟨.pass, ["Main", "adds"], [], 7⟩ :=
    ⟨⟨_, rfl, .null .pass⟩, rfl, .inr ⟨rfl, rfl⟩, .inl ⟨_, rfl, hpadded⟩⟩
  have h : IsEvent "testCompleted" (completedTest (.string " +007\n")) :=
    ⟨rfl, fun tag => by simp [completedTest, Json.Members.find?]⟩
  obtain ⟨hread, -, -, hsame⟩ := completed_tests h
  exact ⟨(hread _).mpr ⟨_, ht, rfl⟩, ((hsame _ _ ht hs).2 .root _ _ rfl rfl).1⟩

end TestTree.Progress
