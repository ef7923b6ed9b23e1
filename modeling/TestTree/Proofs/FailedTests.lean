import TestTree.Proofs.Nesting
import TestTree.Proofs.Report.Comparison
import TestTree.Proofs.RunnerRecords

/-! # Failed tests

A record of a failed test is read whatever its failures are, and its last two events start the test
and let it fail. What the second of them shows is told by the first failure alone if it is one that
is known, and otherwise by the JSON of all failures, from which nothing is lost.

`failed_tests`: this is so after any test. -/

namespace TestTree.Progress

open Report (IsEvent Describes TestCompleted FailureShown)

variable {text : List Char} {v : Json}

/-- The value of a text is as it is read from some text. -/
theorem isParsed_of_readValue (h : (readValue text).1 = some v) :
    Json.IsParsed Json.maxDepth v := by
  unfold readValue at h
  split at h
  · next w hw =>
    obtain rfl := Option.some.inj h
    exact Json.isParsed_of_parse? hw
  · split at h
    · cases h
    · exact Json.isParsed_of_parse? h

/-- The failures of a record are as they are read from a text. -/
theorem isParsed_failures {members : Json.Members} {t : TestCompleted}
    (hp : Json.IsParsed Json.maxDepth (.object members)) (ht : Describes members t) :
    Json.IsParsed Json.maxDepth (.array t.failures) := by
  rcases ht.failures with hf | ⟨-, hf⟩
  · obtain ⟨n, hn, hfailures⟩ := hp.find? hf
    rw [hn]
    exact hfailures.succ
  · rw [hf]
    exact .array (n := 126) (List.forall_mem_nil _)

/-! ### Other failures -/

theorem isEvent_insert {name : String} {members : Json.Members} (h : IsEvent name members)
    (key : String) (he : key ≠ "event") (ht : key ≠ "type") (value : Json) :
    IsEvent name (members.insert key value) where
  event := by rw [Json.Members.find?_insert, if_neg he, h.event]
  untyped tag := by rw [Json.Members.find?_insert, if_neg ht]; exact h.untyped tag

theorem describes_insert {members : Json.Members} {t : TestCompleted} (h : Describes members t)
    (items : List Json) :
    Describes (members.insert "failures" (.array items)) { t with failures := items } where
  status := by rw [Json.Members.find?_insert, if_neg (by decide)]; exact h.status
  labels := by rw [Json.Members.find?_insert, if_neg (by decide)]; exact h.labels
  failures := .inl (by rw [Json.Members.find?_insert, if_pos rfl])
  duration := by rw [Json.Members.find?_insert, if_neg (by decide)]; exact h.duration

/-! ### Events -/

/-- **Failed tests.** After any test a record of a failed test has, after events of suites only, a
started test and the same test failed, as failed expectation. What the second event shows is what is
shown of the failures. With any other failures the record is read as the same test with these. -/
theorem failed_tests {t : TestCompleted} (hv : (readValue text).1 = some v)
    (hr : Report.read v = .ok (some (.runner (.testCompleted t)))) (hs : t.status = .fail) :
    (∃ message actual expected, FailureShown t.failures message actual expected ∧
        ∀ current : Path, ∃ suites : List Event, (∀ e ∈ suites, e.isSuite) ∧
          (accept current text).outcome = .report (suites ++
            [.testStarted (Path.ofLabels t.labels).name
                (some (Location.testIdentifier (Path.ofLabels t.labels))),
              .testFailed (Path.ofLabels t.labels).name message actual expected false])) ∧
      ∃ members : Json.Members, v = .object members ∧ IsEvent "testCompleted" members ∧
        Describes members t ∧ ∀ items : List Json,
          Report.read (.object (members.insert "failures" (.array items))) =
            .ok (some (.runner (.testCompleted { t with failures := items }))) := by
  obtain ⟨members, rfl, hevent, ht⟩ := Report.describes_of_read hr
  refine ⟨?_, members, rfl, hevent, ht, fun items => ?_⟩
  · have hp := isParsed_failures (isParsed_of_readValue hv) ht
    obtain ⟨message, actual, expected, hshown, hfailed⟩ :=
      Report.failureShown_testFailed hp (Path.ofLabels t.labels).name
    refine ⟨message, actual, expected, hshown, fun current => ?_⟩
    have hpath : testPath t = Path.ofLabels t.labels := by rw [testPath, hs]
    refine ⟨move current (testPath t), fun e he => isSuite_of_mem_move he, ?_⟩
    rw [(accept_of_report?_eq_some (report?_of_read hv hr) current).1, advance, testEvents, hs,
      hpath]
    exact congrArg (fun e => Outcome.report (_ ++ [_, e])) hfailed
  · have hothers := isEvent_insert hevent "failures" (by decide) (by decide) (.array items)
    exact (Report.read_testCompleted_iff hothers).mpr ⟨_, describes_insert ht items, rfl⟩

/-- A failed test whose first failure is neither a text nor a record. -/
def oddFailure : String :=
  "\x7b\"event\":\"testCompleted\",\"failures\":[7,\x7b\"a\":[]\x7d],\"labels\":[\"Main\"]," ++
    "\"status\":\"fail\"\x7d"

/-- The failures of `oddFailure`. -/
def oddFailures : List Json := [.ofNat 7, .object [("a", .array [])]]

/-- The members of `oddFailure`. -/
def oddFailureMembers : Json.Members :=
  [("event", .string "testCompleted"), ("failures", .array oddFailures),
    ("labels", .array [.string "Main"]), ("status", .string "fail")]

theorem oddFailure_shown :
    ∃ (suites : List Event) (place message : String),
      (accept .root oddFailure.toList).outcome = .report (suites ++
        [.testStarted "Main" (some place), .testFailed "Main" message none none false]) ∧
        Json.parse? message.toList = some (.array oddFailures) := by
  have hread : Report.Failure.read (.ofNat 7) = .error (.noAlternative "Failure") := rfl
  have hintegers : Json.OnlyIntegers (.array oddFailures) := by
    refine .array (List.forall_mem_cons.mpr ⟨.integer 7, List.forall_mem_singleton.mpr ?_⟩)
    exact .object (List.forall_mem_singleton.mpr (.array (List.forall_mem_nil _)))
  have hv : (readValue oddFailure.toList).1 = some (.object oddFailureMembers) := rfl
  have h := failed_tests (t := ⟨.fail, ["Main"], oddFailures, 0⟩) hv rfl rfl
  obtain ⟨⟨message, actual, expected, hshown, hacc⟩, -⟩ := h
  obtain ⟨suites, -, ho⟩ := hacc .root
  cases hshown with
  | plain hf => cases hf
  | explained hf hr =>
    obtain rfl := Option.some.inj hf
    rw [hread] at hr
    cases hr
  | raw _ hm => exact ⟨suites, _, message, ho, hm hintegers⟩

end TestTree.Progress
