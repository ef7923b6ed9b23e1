import TestTree.Proofs.Path.Built
import TestTree.Proofs.Places

/-! # Blank titles

A test may have a blank title, but no suite has a blank name. Every path of a run is built from
lists of labels (`exists_path?_pathAfter`), so only its last label may be blank, and the events of
suites name labels before the last (`name_ne_blank_of_isSuite`). A console that follows such events
never has a suite open without a name (`named_of_run`).

`suites_named`: all compositions of operations on paths, and all events of all runs. -/

namespace TestTree

namespace Path

/-- The name of a child is its label, also if that is blank. -/
theorem name_child (p : Path) (label : String) : (p.child label).name = label := by
  rw [name, labels_child, List.getLastD_concat]

/-- A node between an ancestor and a path has a name. -/
theorem name_ne_blank_of_mem_between {p q suite : Path} (h : suite ∈ p.between q) :
    suite.name ≠ "" := by
  by_cases hs : p.startsWith q
  · have hn : suite.name ∈ (p.between q).map name := List.mem_map_of_mem h
    rw [map_name_between hs, List.mem_reverse] at hn
    exact p.inner_ne_blank _ (List.mem_of_mem_drop hn)
  · rw [between, if_neg hs] at h
    exact absurd h List.not_mem_nil

end Path

namespace Progress

open Event (Outline)
open TestTree.Path (Expr InnerNamed)

/-! ### Names of events -/

theorem name_ne_blank_of_mem_move {source target : Path} {e : Event} (h : e ∈ move source target) :
    e.name ≠ "" := by
  rcases List.mem_append.mp h with h | h
  · obtain ⟨suite, hs, rfl⟩ := List.mem_map.mp h
    exact Path.name_ne_blank_of_mem_between hs
  · obtain ⟨suite, hs, rfl⟩ := List.mem_map.mp h
    exact Path.name_ne_blank_of_mem_between (List.mem_reverse.mp hs)

/-- **An event of a suite** has a name. -/
theorem name_ne_blank_of_isSuite {current : Path} {report : Report} {e : Event}
    (h : e ∈ (advance current report).1) (hs : e.isSuite) : e.name ≠ "" := by
  rcases report with (start | complete | t) | r
  · exact absurd h List.not_mem_nil
  · obtain ⟨suite, hc, rfl⟩ := List.mem_map.mp h
    exact Path.name_ne_blank_of_mem_between hc
  · rcases List.mem_append.mp h with h | h
    · exact name_ne_blank_of_mem_move h
    · rw [(of_mem_testEvents h).1] at hs
      cases hs
  · obtain ⟨d, -, hd⟩ := List.mem_flatMap.mp h
    rw [not_isSuite_of_mem_problemEvents hd] at hs
    cases hs

/-- **An ignored test** is a todo. -/
theorem name_of_testIgnored {current : Path} {report : Report} {name comment : String}
    (h : .testIgnored name comment ∈ (advance current report).1) : name = "todo" := by
  rcases report with (start | complete | t) | r
  · exact absurd h List.not_mem_nil
  · obtain ⟨suite, -, hs⟩ := List.mem_map.mp h
    cases hs
  · rcases List.mem_append.mp h with h | h
    · cases isSuite_of_mem_move h
    · obtain ⟨message, actual, expected, hf⟩ := testFailed_eq (testPath t).name t
      unfold testEvents at h
      split at h
      · simp at h
      · simp [hf] at h
      · next hs =>
        obtain ⟨rfl, -⟩ : name = (testPath t).name ∧ comment = todoComment t := by simpa using h
        rw [testPath, hs]
        exact Path.name_child _ _
  · obtain ⟨d, -, hd⟩ := List.mem_flatMap.mp h
    simp [problemEvents] at hd

/-! ### Open suites -/

/-- Every open suite has a name. -/
def Named (outline : Outline) : Prop := ∀ name ∈ outline, name ≠ ""

theorem named_openSuites (p : Path) : Named (openSuites p) := by
  intro name hname
  rw [openSuites, List.mem_reverse, Path.labels_suite] at hname
  exact p.inner_ne_blank name hname

/-- **One event** keeps the open suites named. -/
theorem named_of_step {outline next : Outline} {e : Event} (h : Named outline)
    (he : e.isSuite → e.name ≠ "") (hs : outline.step e = some next) : Named next := by
  cases e with
  | suiteStarted name location =>
    obtain rfl : name :: outline = next := Option.some.inj hs
    exact List.forall_mem_cons.mpr ⟨he rfl, h⟩
  | suiteFinished name =>
    cases outline with
    | nil => cases hs
    | cons top rest =>
      rw [Outline.step] at hs
      split at hs
      · obtain rfl := Option.some.inj hs
        exact (List.forall_mem_cons.mp h).2
      · cases hs
  | testStarted | testFinished | testFailed | testIgnored =>
    obtain rfl := Option.some.inj hs
    exact h

/-- **Any events** keep the open suites named. -/
theorem named_of_run {outline last : Outline} {events : List Event} (h : Named outline)
    (he : ∀ e ∈ events, e.isSuite → e.name ≠ "") (hr : outline.run events = some last) :
    Named last := by
  induction events generalizing outline with
  | nil =>
    obtain rfl : outline = last := Option.some.inj hr
    exact h
  | cons e rest ih =>
    obtain ⟨next, hs, hr⟩ := Option.bind_eq_some_iff.mp hr
    obtain ⟨hfirst, hrest⟩ := List.forall_mem_cons.mp he
    exact ih (named_of_step h hfirst hs) hrest hr

theorem named_of_follow {outline last : Outline} {text : List Char} {events : List Event}
    (h : Named outline) (he : ∀ e ∈ events, e.isSuite → e.name ≠ "")
    (hf : follow outline text events = some last) : Named last := by
  unfold follow at hf
  split at hf
  · exact named_of_run (List.forall_mem_nil _) he hf
  · exact named_of_run h he hf

theorem exists_follow_of_append {outline last : Outline} {text : List Char} {s t : List Event}
    (h : follow outline text (s ++ t) = some last) : ∃ o, follow outline text s = some o := by
  unfold follow at h ⊢
  split at h <;> exact exists_run_of_append h

/-! ### Paths of a run -/

theorem exists_path?_testPath (t : Report.TestCompleted) :
    ∃ e : Expr, e.path? = some (testPath t) := by
  unfold testPath
  split
  · exact ⟨.child (.ofLabels t.labels) "todo", rfl⟩
  · exact ⟨.ofLabels t.labels, rfl⟩
  · exact ⟨.ofLabels t.labels, rfl⟩

theorem exists_path?_accept {current : Path} (h : ∃ e : Expr, e.path? = some current)
    (text : List Char) : ∃ e : Expr, e.path? = some (accept current text).path := by
  rcases hr : report? text with - | report
  · rwa [(accept_of_report?_eq_none hr current).2]
  rw [(accept_of_report?_eq_some hr current).2]
  rcases report with (start | complete | t) | r
  · exact ⟨.root, rfl⟩
  · exact ⟨.root, rfl⟩
  · exact exists_path?_testPath t
  · exact h

/-- **Every path of a run** is built from lists of labels. -/
theorem exists_path?_pathAfter {current : Path} (h : ∃ e : Expr, e.path? = some current)
    (texts : List String) : ∃ e : Expr, e.path? = some (pathAfter current texts) := by
  induction texts generalizing current with
  | nil => exact h
  | cons text rest ih => exact ih (exists_path?_accept h text.toList)

/-- An event of a text is one of a report. -/
theorem exists_report_of_mem_events {current : Path} {text : List Char} {e : Event}
    (h : e ∈ (accept current text).outcome.events) :
    ∃ report, e ∈ (advance current report).1 := by
  rcases hr : report? text with - | report
  · rw [(accept_of_report?_eq_none hr current).1] at h
    exact absurd h List.not_mem_nil
  · exact ⟨report, events_of_report?_eq_some hr current ▸ h⟩

/-- **Blank titles.** Labels that are built by any composition of the operations on paths have no
blank one, except possibly the last, and are those of the path that is built; the path for them is
this path again. Every path of a run is built so. Hence no event of a suite has a blank name, and a
console that follows the events has open suites with names only, also where a test is ignored. The
name of an ignored test is `todo`. -/
theorem suites_named :
    (∀ e : Expr, e.path?.map Path.labels = e.labels? ∧
        (∀ labels, e.labels? = some labels →
          InnerNamed labels ∧ Path.withoutBlank labels = labels) ∧
        ∀ p, e.path? = some p → InnerNamed p.labels ∧ Path.ofLabels p.labels = p) ∧
      ∀ (texts : List String) (text : String),
        let current := pathAfter .root texts
        let events := (accept current text.toList).outcome.events
        (∃ e : Expr, e.path? = some current) ∧ InnerNamed current.labels ∧
          Path.ofLabels current.labels = current ∧
          ∃ before, followAll .root [] texts = some before ∧
            ∀ front e rest, events = front ++ e :: rest →
              (e.isSuite → e.name ≠ "") ∧
                (∀ name comment, e = .testIgnored name comment → name = "todo") ∧
                ∃ outline, follow before text.toList front = some outline ∧ Named outline := by
  have hbuilt {e : Expr} {p : Path} (he : e.path? = some p) :
      InnerNamed p.labels ∧ Path.ofLabels p.labels = p := by
    have hl : e.labels? = some p.labels := by rw [← Path.map_labels_path?, he, Option.map_some]
    have hn := Path.innerNamed_of_labels? hl
    exact ⟨hn, Path.ext (Path.labels_ofLabels hn)⟩
  refine ⟨fun e => ⟨Path.map_labels_path? e, fun labels hl => ?_, fun p => hbuilt⟩, ?_⟩
  · have hn := Path.innerNamed_of_labels? hl
    exact ⟨hn, Path.withoutBlank_eq_self hn⟩
  intro texts text current events
  obtain ⟨e, he⟩ := exists_path?_pathAfter ⟨.root, rfl⟩ texts
  obtain ⟨hnamed, hrebuilt⟩ := hbuilt he
  have hall : followAll .root [] texts = some (openSuites current) := by
    simpa using followAll_eq .root texts
  have hsuites : ∀ e ∈ events, e.isSuite → e.name ≠ "" := by
    intro e he hs
    obtain ⟨report, hr⟩ := exists_report_of_mem_events he
    exact name_ne_blank_of_isSuite hr hs
  refine ⟨⟨e, he⟩, hnamed, hrebuilt, openSuites current, hall, fun front e rest h => ?_⟩
  have hmem : e ∈ events := by simp [h]
  refine ⟨hsuites e hmem, ?_, ?_⟩
  · rintro name comment rfl
    obtain ⟨report, hr⟩ := exists_report_of_mem_events hmem
    exact name_of_testIgnored hr
  · have hfollow : follow (openSuites current) text.toList events = _ :=
      follow_accept current text.toList
    rw [h] at hfollow
    obtain ⟨outline, ho⟩ := exists_follow_of_append hfollow
    refine ⟨outline, ho, named_of_follow (named_openSuites current) (fun e' he' => ?_) ho⟩
    exact hsuites e' (h ▸ List.mem_append_left _ he')

/-- A test without a title. -/
def untitledTest : String :=
  "\x7b\"event\":\"testCompleted\",\"labels\":[\"Main\",\"\"],\"status\":\"pass\"\x7d"

/-- A todo without a title. -/
def untitledTodo : String :=
  "\x7b\"event\":\"testCompleted\",\"labels\":[\"Main\",\"\"],\"status\":\"todo\"\x7d"

theorem untitledTodo_ignored :
    Path.withoutBlank ["Main", "todo"] = ["Main", "todo"] ∧
      (accept (pathAfter .root [untitledTest]) untitledTodo.toList).outcome.events =
        [.testIgnored "todo" ""] ∧
      ∃ before outline, followAll .root [] [untitledTest] = some before ∧
        follow before untitledTodo.toList [] = some outline ∧ Named outline := by
  let e : Expr := .child (.child (.ofLabels ["Main"]) "") "todo"
  have he : e.labels? = some ["Main", "todo"] := rfl
  have hevents : (accept (pathAfter .root [untitledTest]) untitledTodo.toList).outcome.events =
      [.testIgnored "todo" ""] := rfl
  obtain ⟨-, -, -, before, hbefore, hevery⟩ := suites_named.2 [untitledTest] untitledTodo
  obtain ⟨-, -, outline, houtline, hnamed⟩ := hevery [] _ [] hevents
  exact ⟨((suites_named.1 e).2.1 _ he).2, hevents, before, outline, hbefore, houtline, hnamed⟩

end Progress

end TestTree
