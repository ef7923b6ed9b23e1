import TestTree.Proofs.Accept
import TestTree.Proofs.Path
import TestTree.Proofs.Report.Runner

/-! # Suites are nested

Which suites are open is never stored. The invariant of a run is that a console that follows the
events has open exactly the suites around the last test, `openSuites`: the labels of the suite of
its path, the innermost first. Each text keeps it (`follow_accept`), hence each run does
(`followAll_eq`).

* `run_move`: the events between two tests turn the suites around the first test into those around
  the second one, and on the way no suite is finished but the innermost one.
* `labels_testPath`: a completed test has the labels of its record without the blank ones, except
  for the title of a test that ran, and a todo has a leaf besides.
* `suites_nested`: what a console sees of every text of every run. -/

namespace TestTree.Progress

open Event (Outline)
open Report (IsEvent Describes)

/-- The suites around a test, as a console has them open. -/
def openSuites (p : Path) : Outline := p.suite.labels.reverse

@[simp] theorem openSuites_root : openSuites .root = [] := by simp [openSuites]

/-! ### Events of suites -/

theorem run_map_suiteFinished (suites : List Path) (outline : Outline) :
    Outline.run (suites.map Path.name ++ outline) (suites.map suiteFinished) = some outline := by
  induction suites with
  | nil => rfl
  | cons suite rest ih => simpa [Outline.run, Outline.step, suiteFinished] using ih

theorem run_map_suiteStarted (suites : List Path) (outline : Outline) :
    outline.run (suites.map suiteStarted) =
      some ((suites.map Path.name).reverse ++ outline) := by
  induction suites generalizing outline with
  | nil => rfl
  | cons suite rest ih => simp [Outline.run, Outline.step, suiteStarted, ih]

/-- Events of tests leave the suites as they are. -/
theorem run_of_not_isSuite (outline : Outline) {events : List Event}
    (h : ∀ e ∈ events, e.isSuite = false) : outline.run events = some outline := by
  induction events with
  | nil => rfl
  | cons e rest ih =>
    have he := h e (by simp)
    have hs : outline.step e = some outline := by cases e <;> simp_all [Event.isSuite, Outline.step]
    rw [Outline.run, hs, Option.bind_some]
    exact ih fun e' he' => h e' (by simp [he'])

/-! ### Between two tests -/

theorem run_closing (source target : Path) :
    (openSuites source).run ((source.closing target).map suiteFinished) =
      some (source.commonSuite target).labels.reverse := by
  rw [openSuites, ← Path.labels_closing source target, List.reverse_append, List.reverse_reverse]
  exact run_map_suiteFinished _ _

/-- **From one test to the next.** -/
theorem run_move (source target : Path) :
    (openSuites source).run (move source target) = some (openSuites target) := by
  rw [move, Outline.run_append, run_closing, Option.bind_some, run_map_suiteStarted, openSuites,
    ← Path.labels_opening source target, List.reverse_append]

theorem isSuite_of_mem_move {source target : Path} {e : Event} (h : e ∈ move source target) :
    e.isSuite = true := by
  simp only [move, List.mem_append, List.mem_map] at h
  rcases h with ⟨suite, -, rfl⟩ | ⟨suite, -, rfl⟩ <;> rfl

/-! ### Paths of tests -/

/-- **The labels of a test**, from those of its record: blank ones are left out, except for the
title of a test that ran. A todo has a leaf of its own. -/
def testLabels (t : Report.TestCompleted) : List String :=
  match t.status with
  | .pass | .fail => t.labels.dropLast.filter (· ≠ "") ++ t.labels.getLast?.toList
  | .todo => t.labels.filter (· ≠ "") ++ ["todo"]

theorem labels_testPath (t : Report.TestCompleted) : (testPath t).labels = testLabels t := by
  unfold testPath testLabels
  cases t.status with
  | pass => rfl
  | fail => rfl
  | todo => rw [Path.labels_child, Path.filter_labels_ofLabels]

/-! ### Events of tests -/

theorem testEvents_ne_nil (path : Path) (t : Report.TestCompleted) : testEvents path t ≠ [] := by
  unfold testEvents; split <;> simp

theorem testFailed_eq (name : String) (t : Report.TestCompleted) :
    ∃ message actual expected,
      testFailed name t = .testFailed name message actual expected false := by
  unfold testFailed; split <;> exact ⟨_, _, _, rfl⟩

theorem of_mem_testEvents {path : Path} {t : Report.TestCompleted} {e : Event}
    (h : e ∈ testEvents path t) : e.isSuite = false ∧ e.name = path.name := by
  obtain ⟨message, actual, expected, hf⟩ := testFailed_eq path.name t
  unfold testEvents at h
  split at h
  · simp only [List.mem_cons, List.not_mem_nil, or_false] at h
    rcases h with rfl | rfl <;> exact ⟨rfl, rfl⟩
  · simp only [hf, List.mem_cons, List.not_mem_nil, or_false] at h
    rcases h with rfl | rfl <;> exact ⟨rfl, rfl⟩
  · simp only [List.mem_singleton] at h
    subst h; exact ⟨rfl, rfl⟩

theorem not_isSuite_of_mem_problemEvents {d : Report.Diagnostic} {e : Event}
    (h : e ∈ problemEvents d) : e.isSuite = false := by
  simp only [problemEvents, List.mem_cons, List.not_mem_nil, or_false] at h
  rcases h with rfl | rfl <;> rfl

/-! ### Texts -/

/-- **One report** turns the suites around the last test into those around the next one. -/
theorem run_advance (current : Path) {report : Report}
    (h : ∀ start, report ≠ .runner (.runStart start)) :
    (openSuites current).run (advance current report).1 =
      some (openSuites (advance current report).2) := by
  rcases report with (start | complete | t) | r
  · exact absurd rfl (h start)
  · have hr := run_closing current .root
    have hc : (current.commonSuite .root).labels = [] := by
      have := Path.labels_opening current .root
      simp only [Path.suite_root, Path.labels_root, List.append_eq_nil_iff] at this
      exact this.1
    simpa [advance, hc] using hr
  · rw [advance, Outline.run_append, run_move, Option.bind_some]
    exact run_of_not_isSuite _ fun e he => (of_mem_testEvents he).1
  · refine run_of_not_isSuite _ fun e he => ?_
    simp only [advance, List.mem_flatMap] at he
    obtain ⟨d, -, hd⟩ := he
    exact not_isSuite_of_mem_problemEvents hd

/-- **One text** keeps the invariant. -/
theorem follow_accept (current : Path) (text : List Char) :
    follow (openSuites current) text (accept current text).outcome.events =
      some (openSuites (accept current text).path) := by
  cases hr : report? text with
  | none =>
    obtain ⟨he, hp⟩ := accept_of_report?_eq_none hr current
    rw [follow_eq_run _ _ (by simp [hr]), he, hp]; rfl
  | some report =>
    rw [events_of_report?_eq_some hr, (accept_of_report?_eq_some hr current).2]
    by_cases hs : ∃ start, report = .runner (.runStart start)
    · obtain ⟨start, rfl⟩ := hs
      simp [follow, hr, advance, Outline.run]
    · rw [not_exists] at hs
      rw [follow_eq_run _ _ (by simpa [hr] using hs)]
      exact run_advance current hs

/-- **A run** keeps the invariant. -/
theorem followAll_eq (current : Path) (texts : List String) :
    followAll current (openSuites current) texts = some (openSuites (pathAfter current texts)) := by
  induction texts generalizing current with
  | nil => rfl
  | cons text rest ih => rw [followAll, follow_accept, Option.bind_some, ih, pathAfter]

/-! ### Starts and ends of tests -/

/-- An event that ends a test with a name. -/
def endsTest (name : String) : Event → Prop
  | .testFinished n _ | .testFailed n _ _ _ _ => n = name
  | _ => False

/-- Each start of a test is directly followed by its end. -/
def StartsEnd (events : List Event) : Prop :=
  ∀ front name location rest, events = front ++ .testStarted name location :: rest →
    ∃ e rest', rest = e :: rest' ∧ endsTest name e

theorem StartsEnd.nil : StartsEnd [] := by
  intro front name location rest h
  simp at h

theorem StartsEnd.cons {e : Event} {events : List Event} (h : StartsEnd events)
    (he : ∀ name location, e ≠ .testStarted name location) : StartsEnd (e :: events) := by
  intro front name location rest hs
  cases front with
  | nil =>
    simp only [List.nil_append, List.cons.injEq] at hs
    exact absurd hs.1 (he name location)
  | cons e' front =>
    simp only [List.cons_append, List.cons.injEq] at hs
    exact h front name location rest hs.2

theorem StartsEnd.start {name : String} {location : Option String} {e : Event}
    {events : List Event} (h : StartsEnd events) (he : endsTest name e) :
    StartsEnd (.testStarted name location :: e :: events) := by
  have hc : StartsEnd (e :: events) := h.cons fun n l => by rintro rfl; exact he
  intro front n l rest hs
  cases front with
  | nil =>
    simp only [List.nil_append, List.cons.injEq, Event.testStarted.injEq] at hs
    obtain ⟨⟨rfl, -⟩, rfl⟩ := hs
    exact ⟨e, events, rfl, he⟩
  | cons e' front =>
    simp only [List.cons_append, List.cons.injEq] at hs
    exact hc front n l rest hs.2

theorem StartsEnd.append_of_isSuite {suites events : List Event} (h : StartsEnd events)
    (hs : ∀ e ∈ suites, e.isSuite = true) : StartsEnd (suites ++ events) := by
  induction suites with
  | nil => exact h
  | cons e rest ih =>
    refine (ih fun e' he' => hs e' (by simp [he'])).cons fun name location he => ?_
    have := hs e (by simp)
    simp [he, Event.isSuite] at this

theorem startsEnd_testEvents (path : Path) (t : Report.TestCompleted) :
    StartsEnd (testEvents path t) := by
  obtain ⟨message, actual, expected, hf⟩ := testFailed_eq path.name t
  unfold testEvents
  split
  · exact StartsEnd.nil.start rfl
  · rw [hf]; exact StartsEnd.nil.start rfl
  · exact StartsEnd.nil.cons fun _ _ h => by cases h

theorem startsEnd_flatMap_problemEvents (ds : List Report.Diagnostic) :
    StartsEnd (ds.flatMap problemEvents) := by
  induction ds with
  | nil => exact StartsEnd.nil
  | cons d rest ih => exact StartsEnd.start ih rfl

theorem startsEnd_advance (current : Path) (report : Report) :
    StartsEnd (advance current report).1 := by
  rcases report with (start | complete | t) | r
  · exact StartsEnd.nil
  · have h : ∀ e ∈ (current.closing .root).map suiteFinished, e.isSuite = true := by
      intro e he
      obtain ⟨suite, -, rfl⟩ := List.mem_map.mp he
      rfl
    simpa [advance] using StartsEnd.nil.append_of_isSuite h
  · exact (startsEnd_testEvents _ t).append_of_isSuite fun e he => isSuite_of_mem_move he
  · exact startsEnd_flatMap_problemEvents _

/-! ### The whole run -/

/-- A text is a completed test as the members of its record describe it. -/
theorem exists_describes {text : List Char} {t : Report.TestCompleted}
    (h : report? text = some (.runner (.testCompleted t))) :
    ∃ members, (readValue text).1 = some (.object members) ∧ IsEvent "testCompleted" members ∧
      Describes members t := by
  obtain ⟨v, hv, hr⟩ := report?_eq_some_iff.mp h
  obtain ⟨members, rfl, hevent, ht⟩ := Report.describes_of_read hr
  exact ⟨members, hv, hevent, ht⟩

/-- **What a console sees of a run.** After any texts it has followed all events, and has open the
suites around the last test. With the next text it gets to the suites around the path after that.
Of a completed test, which has the labels that its record tells, the events of suites come first and
lead to the suites around the test; the others carry the last label of its path. After the end of a
run no suite is open. Each start of a test is directly followed by the end of that test. -/
theorem suites_nested (texts : List String) (text : String) :
    let current := pathAfter .root texts
    let step := accept current text.toList
    let events := step.outcome.events
    ∃ before after : Outline,
      followAll .root [] texts = some before ∧ before.reverse = current.suite.labels ∧
      follow before text.toList events = some after ∧ after.reverse = step.path.suite.labels ∧
      (∀ t, report? text.toList = some (.runner (.testCompleted t)) →
        step.path = testPath t ∧
        (∃ members, (readValue text.toList).1 = some (.object members) ∧
          IsEvent "testCompleted" members ∧ Describes members t) ∧
        (testPath t).labels = testLabels t ∧
        ∃ suites leaves, events = suites ++ leaves ∧ leaves ≠ [] ∧
          (∀ e ∈ suites, e.isSuite = true) ∧
          (∀ e ∈ leaves, e.isSuite = false ∧ e.name = (testPath t).labels.getLastD "") ∧
          before.run suites = some (testPath t).suite.labels.reverse) ∧
      (∀ complete, report? text.toList = some (.runner (.runComplete complete)) →
        step.path = .root ∧ after = []) ∧
      ∀ front name location rest, events = front ++ .testStarted name location :: rest →
        ∃ e rest', rest = e :: rest' ∧ endsTest name e := by
  intro current step events
  have hall : followAll .root [] texts = some (openSuites current) := by
    simpa using followAll_eq .root texts
  refine ⟨openSuites current, openSuites step.path, hall, List.reverse_reverse _,
    follow_accept current text.toList, List.reverse_reverse _, fun t ht => ?_,
    fun complete hc => ?_, ?_⟩
  · obtain ⟨-, hp⟩ := accept_of_report?_eq_some ht current
    refine ⟨hp, exists_describes ht, labels_testPath t, move current (testPath t),
      testEvents (testPath t) t, events_of_report?_eq_some ht current, testEvents_ne_nil _ t,
      fun e he => isSuite_of_mem_move he, fun e he => of_mem_testEvents he,
      run_move current (testPath t)⟩
  · have hp : step.path = .root := (accept_of_report?_eq_some hc current).2
    exact ⟨hp, by rw [hp, openSuites_root]⟩
  · show StartsEnd events
    cases hr : report? text.toList with
    | none => rw [show events = [] from (accept_of_report?_eq_none hr current).1]; exact .nil
    | some report =>
      rw [show events = _ from events_of_report?_eq_some hr current]
      exact startsEnd_advance current report

/-- The text of a test that passed. -/
def addsText : String :=
  "\x7b\"event\":\"testCompleted\",\"status\":\"pass\",\"labels\":[\"Main\",\"sums\",\"adds\"]\x7d"

/-- The text of a todo, with a blank label before its title. -/
def minusText : String :=
  "\x7b\"event\":\"testCompleted\",\"status\":\"todo\",\"labels\":[\"Main\",\"\",\"minus\"]\x7d"

/-- A todo after a test in another suite: that suite is left, and the one of the todo is entered. -/
theorem minus_nested :
    ∃ (before after : Outline) (suites leaves : List Event),
      followAll .root [] [addsText] = some before ∧ before.reverse = ["Main", "sums"] ∧
      suites ++ leaves = [.suiteFinished "sums",
        .suiteStarted "minus" "elmTestDescribe://Main/minus", .testIgnored "todo" ""] ∧
      before.run suites = some ["minus", "Main"] ∧ leaves ≠ [] ∧
      (∀ e ∈ leaves, e.isSuite = false ∧ e.name = "todo") ∧
      follow before minusText.toList (suites ++ leaves) = some after ∧
      after.reverse = ["Main", "minus"] := by
  have hcurrent : (pathAfter .root [addsText]).suite.labels = ["Main", "sums"] := by
    decide +kernel
  have hevents : (accept (pathAfter .root [addsText]) minusText.toList).outcome.events =
      [.suiteFinished "sums", .suiteStarted "minus" "elmTestDescribe://Main/minus",
        .testIgnored "todo" ""] := by
    decide +kernel
  have hr : report? minusText.toList =
      some (.runner (.testCompleted ⟨.todo, ["Main", "", "minus"], [], 0⟩)) := rfl
  obtain ⟨before, after, hb, hbefore, hf, hafter, htest, -⟩ := suites_nested [addsText] minusText
  obtain ⟨hp, -, hl, suites, leaves, he, hne, -, hleaves, hsuites⟩ := htest _ hr
  rw [hp] at hafter
  refine ⟨before, after, suites, leaves, hb, hbefore.trans hcurrent, he ▸ hevents, hsuites, hne,
    fun e hmem => ?_, he ▸ hf, hafter⟩
  have h := hleaves e hmem
  rwa [hl] at h

end TestTree.Progress
