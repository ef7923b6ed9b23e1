import TestTree.Proofs.Nesting
import TestTree.Proofs.Report.Site

/-! # Locations name the places of events

An event that starts a suite or a test carries the identifier of its place. `Located` says what the
identifier has to be read as, given the suites that are open when the event arrives; these, with the
name of the event, are the labels of the place. The test of a problem that the compiler reports has
the place that the report tells for the problem, in the values of the report itself.

* `namesPlace_suite`, `namesPlace_test`: the identifiers of paths.
* `located_move`: a suite is started when the suites around it are open, so its path is the open
  suites with its name.
* `located_diagnostic`: the test of a problem is at the site of the problem.
* `locations_read_back`: every event of every text of every run is `Located`. -/

namespace TestTree.Progress

open Event (Outline)
open Report (Diagnostic NamesSite TitleText problemSites)

/-! ### Places -/

/-- An identifier is read as the place with some labels: the first one names the module, whose dots
are slashes in the name of its file; the others are below the module. -/
def NamesPlace (kind : String → Path → Location) (labels : List String) (identifier : String) :
    Prop :=
  ∃ module below path, labels = module :: below ∧ path.labels = below ∧
    Location.read identifier = .ok (kind
      ("tests/" ++ String.ofList (module.toList.map fun c => if c = '.' then '/' else c) ++ ".elm")
      path)

/-- The test of a problem, at an index among the problems that a text reports, has the title of the
problem as its name, and a location that names the site of the problem. -/
def NamesProblem (text : List Char) (index : Nat) (name : String) (location : Option String) :
    Prop :=
  ∃ members site, (readValue text).1 = some (.object members) ∧
    (problemSites members)[index]? = some site ∧ TitleText site.title name ∧
    NamesSite site location

/-- An event among those of a text, at an index, carries the location of its place, given the suites
that are open when it arrives. A problem has two events, of which the first starts its test. -/
def Located (text : List Char) (index : Nat) (outline : Outline) : Event → Prop
  | .suiteStarted name identifier =>
    NamesPlace Location.suite (name :: outline).reverse identifier
  | .testStarted name location =>
    match report? text with
    | some (.runner (.testCompleted _)) =>
      ∃ identifier, location = some identifier ∧
        NamesPlace Location.test (name :: outline).reverse identifier
    | some (.compiler _) => NamesProblem text (index / 2) name location
    | _ => False
  | e => e.location? = none

theorem namesPlace_suite {p : Path} (h : p.labels ≠ []) :
    NamesPlace Location.suite p.labels (Location.suiteIdentifier p) := by
  obtain ⟨module, below, hl⟩ := List.exists_cons_of_ne_nil h
  refine ⟨module, below, Path.ofLabels p.labels.tail, hl, ?_, ?_⟩
  · rw [Path.labels_ofLabels_tail, hl, List.tail_cons]
  · rw [Location.read_suiteIdentifier, hl]; rfl

/-- The root is read like the path with one blank label. -/
theorem namesPlace_test (p : Path) :
    NamesPlace Location.test (p.name :: openSuites p).reverse (Location.testIdentifier p) := by
  have hr := Location.read_testIdentifier p
  have ht := Path.labels_ofLabels_tail p
  have hl : (p.name :: openSuites p).reverse = p.labels.dropLast ++ [p.name] := by
    simp [openSuites]
  rw [hl]
  by_cases h : p.labels = []
  · exact ⟨"", [], _, by simp [h, Path.name], by rw [ht, h]; rfl, by rw [hr, h]; rfl⟩
  · rw [← Path.labels_eq_dropLast_append h]
    obtain ⟨module, below, hm⟩ := List.exists_cons_of_ne_nil h
    exact ⟨module, below, _, hm, by rw [ht, hm, List.tail_cons], by rw [hr, hm]; rfl⟩

/-! ### Where an event stands -/

/-- An element of two lists in a row stands in the first or in the second one. -/
theorem append_eq_append_cons {α : Type} {s t front rest : List α} {a : α}
    (h : s ++ t = front ++ a :: rest) :
    (∃ later, s = front ++ a :: later) ∨ ∃ later, front = s ++ later ∧ t = later ++ a :: rest := by
  rcases List.append_eq_append_iff.mp h with ⟨later, hf, ht⟩ | ⟨later, hs, ht⟩
  · exact Or.inr ⟨later, hf, ht⟩
  · cases later with
    | nil => exact Or.inr ⟨[], by simpa using hs.symm, by simpa using ht.symm⟩
    | cons b later =>
      simp only [List.cons_append, List.cons.injEq] at ht
      exact Or.inl ⟨later, by rw [hs, ht.1]⟩

/-- **A suite is started when the suites around it are open.** -/
theorem located_move {source target : Path} {front rest : List Event} {name identifier : String}
    (h : move source target = front ++ .suiteStarted name identifier :: rest) :
    ∃ outline, (openSuites source).run front = some outline ∧
      NamesPlace Location.suite (name :: outline).reverse identifier := by
  rcases append_eq_append_cons h with ⟨later, hc⟩ | ⟨later, rfl, ho⟩
  · have hm : Event.suiteStarted name identifier ∈ (source.closing target).map suiteFinished := by
      rw [hc]; simp
    obtain ⟨suite, -, hs⟩ := List.mem_map.mp hm
    cases hs
  · obtain ⟨before, after, hopen, rfl, hcons⟩ := List.map_eq_append_iff.mp ho
    obtain ⟨suite, after, rfl, he, -⟩ := List.map_eq_cons_iff.mp hcons
    obtain ⟨rfl, rfl⟩ : suite.name = name ∧ Location.suiteIdentifier suite = identifier := by
      simpa [suiteStarted] using he
    have hl := Path.labels_of_opening_eq_append hopen
    refine ⟨(before.map Path.name).reverse ++ (source.commonSuite target).labels.reverse, ?_, ?_⟩
    · rw [Outline.run_append, run_closing, Option.bind_some, run_map_suiteStarted]
    · rw [show (suite.name :: ((before.map Path.name).reverse ++
          (source.commonSuite target).labels.reverse)).reverse = suite.labels by rw [hl]; simp]
      exact namesPlace_suite (by rw [hl]; simp)

theorem located_testEvents {path : Path} {t : Report.TestCompleted} {front rest : List Event}
    {name : String} {location : Option String}
    (h : testEvents path t = front ++ .testStarted name location :: rest) :
    front = [] ∧ name = path.name ∧ location = some (Location.testIdentifier path) := by
  obtain ⟨message, actual, expected, hf⟩ := testFailed_eq path.name t
  unfold testEvents at h
  -- Only the first event of a test is a start.
  cases hs : t.status <;> rcases front with _ | ⟨e, _ | ⟨e', front⟩⟩ <;> simp_all

theorem getElem?_diagnostics {ds : List Diagnostic} {front rest : List Event} {name : String}
    {location : Option String}
    (h : ds.flatMap problemEvents = front ++ .testStarted name location :: rest) :
    ∃ d, ds[front.length / 2]? = some d ∧ d.title = name ∧ d.identifier? = location := by
  induction ds generalizing front with
  | nil => simp at h
  | cons d ds ih =>
    rw [List.flatMap_cons, problemEvents] at h
    rcases front with _ | ⟨e, _ | ⟨e', front⟩⟩
    · simp only [List.cons_append, List.nil_append, List.cons.injEq, Event.testStarted.injEq] at h
      exact ⟨d, rfl, h.1⟩
    · simp at h
    · simp only [List.cons_append, List.nil_append, List.cons.injEq] at h
      obtain ⟨d', hd, ht⟩ := ih h.2.2
      refine ⟨d', ?_, ht⟩
      rw [List.length_cons, List.length_cons,
        show (front.length + 1 + 1) / 2 = front.length / 2 + 1 by omega]
      exact hd

/-- **The test of a problem** is at the site of the problem. -/
theorem located_diagnostic {text : List Char} {r : Report.CompileReport}
    (h : report? text = some (.compiler r)) {index : Nat} {d : Diagnostic}
    (hd : r.diagnostics[index]? = some d) : NamesProblem text index d.title d.identifier? := by
  obtain ⟨v, hv, hread⟩ := report?_eq_some_iff.mp h
  obtain ⟨members, rfl, hplaced⟩ := Report.diagnostics_placed hread
  obtain ⟨hi, rfl⟩ := List.getElem?_eq_some_iff.mp hd
  have hlt : index < (problemSites members).length := by rwa [hplaced.length_eq]
  have hat := hplaced.get hlt hi
  exact ⟨members, _, hv, List.getElem?_eq_getElem hlt, hat.title, hat.namesSite⟩

/-! ### The whole run -/

theorem exists_run_of_append {outline after : Outline} {s t : List Event}
    (h : outline.run (s ++ t) = some after) : ∃ o, outline.run s = some o := by
  rw [Outline.run_append] at h
  cases hs : outline.run s with
  | none => rw [hs] at h; cases h
  | some o => exact ⟨o, rfl⟩

/-- **One report** has its events located. -/
theorem located_advance (current : Path) {text : List Char} {report : Report}
    {front rest : List Event} {e : Event} (hr : report? text = some report)
    (h : (advance current report).1 = front ++ e :: rest) :
    ∃ outline, (openSuites current).run front = some outline ∧
      Located text front.length outline e := by
  have hstart : ∀ start, report ≠ .runner (.runStart start) := by
    rintro start rfl
    simp [advance] at h
  obtain ⟨outline, ho⟩ := exists_run_of_append (h ▸ run_advance current hstart)
  have hm : e ∈ (advance current report).1 := by
    rw [h]
    simp
  cases e with
  | suiteFinished | testFinished | testFailed | testIgnored => exact ⟨outline, ho, rfl⟩
  | suiteStarted name identifier =>
    rcases report with (start | complete | t) | r
    · exact absurd rfl (hstart start)
    · obtain ⟨suite, -, hs⟩ := List.mem_map.mp hm
      cases hs
    · rcases append_eq_append_cons h with ⟨later, hmove⟩ | ⟨later, -, ht⟩
      · exact located_move hmove
      · have : Event.suiteStarted name identifier ∈ testEvents (testPath t) t := by simp [ht]
        cases (of_mem_testEvents this).1
    · obtain ⟨d, -, hd⟩ := List.mem_flatMap.mp hm
      cases not_isSuite_of_mem_problemEvents hd
  | testStarted name location =>
    rcases report with (start | complete | t) | r
    · exact absurd rfl (hstart start)
    · obtain ⟨suite, -, hs⟩ := List.mem_map.mp hm
      cases hs
    · rcases append_eq_append_cons h with ⟨later, hmove⟩ | ⟨later, rfl, ht⟩
      · have : Event.testStarted name location ∈ move current (testPath t) := by simp [hmove]
        cases isSuite_of_mem_move this
      · obtain ⟨rfl, rfl, rfl⟩ := located_testEvents ht
        rw [List.append_nil] at ho ⊢
        rw [run_move, Option.some.injEq] at ho
        subst ho
        refine ⟨openSuites (testPath t), run_move _ _, ?_⟩
        rw [Located, hr]
        exact ⟨_, rfl, namesPlace_test _⟩
    · obtain ⟨d, hd, rfl, rfl⟩ := getElem?_diagnostics h
      refine ⟨outline, ho, ?_⟩
      rw [Located, hr]
      exact located_diagnostic hr hd

/-- **Locations are read back as the places of their events**, in every run, whatever the labels and
files are. -/
theorem locations_read_back (texts : List String) (text : String) :
    let events := (accept (pathAfter .root texts) text.toList).outcome.events
    ∃ before, followAll .root [] texts = some before ∧
      ∀ front e rest, events = front ++ e :: rest →
        ∃ outline, follow before text.toList front = some outline ∧
          Located text.toList front.length outline e := by
  intro events
  have hall : followAll .root [] texts = some (openSuites (pathAfter .root texts)) := by
    simpa using followAll_eq .root texts
  refine ⟨_, hall, fun front e rest h => ?_⟩
  cases hr : report? text.toList with
  | none =>
    rw [show events = [] from (accept_of_report?_eq_none hr _).1] at h
    simp at h
  | some report =>
    rw [show events = _ from events_of_report?_eq_some hr _] at h
    rw [follow_eq_run _ _ (by
      rintro start hs
      rw [hr, Option.some.injEq] at hs
      simp [hs, advance] at h)]
    exact located_advance _ hr h

/-- The text of a test with a slash in its title. -/
def halfText : String :=
  "\x7b\"event\":\"testCompleted\",\"status\":\"pass\",\"labels\":[\"Main\",\"1/2\"]\x7d"

/-- A region as it is read. -/
def regionValue : Json :=
  .object [("end", .object [("column", .ofNat 9), ("line", .ofNat 3)]),
    ("start", .object [("column", .ofNat 5), ("line", .ofNat 3)])]

/-- A report on two problems of a module, of which one has a region. -/
def regionProblems : Json.Members :=
  [("errors", .array [.object [("path", .string "src/A::B.elm"), ("problems", .array
      [.object [("region", regionValue), ("title", .string "T")],
        .object [("title", .string "U")]])]]),
    ("type", .string "compile-errors")]

/-- The text of `regionProblems`. -/
def regionText : String :=
  "\x7b\"type\":\"compile-errors\",\"errors\":[\x7b\"path\":\"src/A::B.elm\",\"problems\":[" ++
    "\x7b\"title\":\"T\",\"region\":\x7b\"start\":\x7b\"line\":3,\"column\":5\x7d," ++
    "\"end\":\x7b\"line\":3,\"column\":9\x7d\x7d\x7d,\x7b\"title\":\"U\"\x7d]\x7d]\x7d"

set_option maxRecDepth 1024 in
/-- A suite, a test in it, and two problems with their places. -/
theorem half_and_region_located :
    (accept .root halfText.toList).outcome.events =
        [.suiteStarted "Main" "elmTestDescribe://Main",
          .testStarted "1/2" (some "elmTestTest://Main/1%2F2"), .testFinished "1/2" 0] ∧
      NamesPlace Location.suite ["Main"] "elmTestDescribe://Main" ∧
      NamesPlace Location.test ["Main", "1/2"] "elmTestTest://Main/1%2F2" ∧
      (accept (pathAfter .root [halfText]) regionText.toList).outcome.events =
        [.testStarted "T" (some "elmTestError://src/A::B.elm::3::5"),
          .testFailed "T" "UNKNOWN" none none true,
          .testStarted "U" (some "elmTestError://src/A::B.elm::1::1"),
          .testFailed "U" "UNKNOWN" none none true] ∧
      Location.read "elmTestError://src/A::B.elm::3::5" = .ok (.error "src/A::B.elm" 3 5) ∧
      Location.read "elmTestError://src/A::B.elm::1::1" = .ok (.error "src/A::B.elm" 1 1) := by
  have hhalf : (accept .root halfText.toList).outcome.events =
      [.suiteStarted "Main" "elmTestDescribe://Main",
        .testStarted "1/2" (some "elmTestTest://Main/1%2F2"), .testFinished "1/2" 0] := by
    decide +kernel
  have hregion : (accept (pathAfter .root [halfText]) regionText.toList).outcome.events =
      [.testStarted "T" (some "elmTestError://src/A::B.elm::3::5"),
        .testFailed "T" "UNKNOWN" none none true,
        .testStarted "U" (some "elmTestError://src/A::B.elm::1::1"),
        .testFailed "U" "UNKNOWN" none none true] := by
    decide +kernel
  have hv : (readValue regionText.toList).1 = some (.object regionProblems) := rfl
  obtain ⟨before, hb, hhalfAt⟩ := locations_read_back [] halfText
  obtain rfl : [] = before := Option.some.inj hb
  obtain ⟨between, -, hregionAt⟩ := locations_read_back [halfText] regionText
  refine ⟨hhalf, ?suite, ?test, hregion, ?start, ?file⟩
  case suite =>
    obtain ⟨outline, ho, hsuite⟩ := hhalfAt [] _ _ hhalf
    obtain rfl : [] = outline := Option.some.inj ho
    exact hsuite
  case test =>
    obtain ⟨outline, ho, identifier, he, hplace⟩ := hhalfAt [_] _ _ hhalf
    obtain rfl : ["Main"] = outline := Option.some.inj ho
    obtain rfl := Option.some.inj he
    exact hplace
  case start =>
    obtain ⟨outline, -, members, site, hm, hs, -, hsite⟩ := hregionAt [] _ _ hregion
    obtain rfl := Json.object.inj (Option.some.inj (hm.symm.trans hv))
    obtain rfl := Option.some.inj hs
    exact hsite.read_eq (.text _) (.region rfl rfl rfl)
  case file =>
    obtain ⟨outline, -, members, site, hm, hs, -, hsite⟩ := hregionAt [_, _] _ _ hregion
    obtain rfl := Json.object.inj (Option.some.inj (hm.symm.trans hv))
    obtain rfl := Option.some.inj hs
    exact hsite.read_eq (.text _) .absent

end TestTree.Progress
