import TestTree.Proofs.Nesting
import TestTree.Proofs.Path.Enclosing
import Mathlib.Order.Bounds.Defs

/-! # The way from one test to the next

* `reverse_between_meet_iff`: the suites that are entered are the nodes below the meet of the two
  tests, except that a test that becomes a suite is entered as well, although it is the meet.
* `suites_left_and_entered`: exactly the suites around one test only are left and entered, and no
  console gets from the suites of the first test to those of the second with fewer of them.

The bound comes from one event: it opens or closes one suite at most, so it brings the open suites
at most one step nearer to any others (`Outline.length_le_of_step`). -/

namespace TestTree

namespace Path

variable {source target : Path}

/-! ### Below the meet -/

theorem reverse_between_meet (source target : Path) :
    (target.between (target.meet source)).reverse =
      (List.range' ((target.meet source).length + 1)
        (target.length - ((target.meet source).length + 1))).map target.take := by
  rw [between_of_startsWith (startsWith_meet_left target source), List.reverse_reverse]

/-- A test that becomes a suite is entered first. -/
theorem opening_of_encloses (h : source.Encloses target) :
    source.opening target = source :: (target.between (target.meet source)).reverse := by
  obtain ⟨hs, h0, hlt⟩ := encloses_iff.mp h
  have hm : (target.meet source).length = source.length := startsWith_iff_length_meet.mp hs
  have hc : (commonSuite source target).length + 1 = source.length := by
    have := length_commonSuite source target
    rw [meet_comm] at this
    omega
  have hr : target.length - source.length = target.length - (source.length + 1) + 1 := by omega
  rw [opening_eq_map, reverse_between_meet, hm, hc, hr, List.range'_succ, List.map_cons,
    ← eq_take_of_startsWith hs]

/-- From any other test the nodes below the meet are entered. -/
theorem opening_of_not_encloses (h : ¬ source.Encloses target) :
    source.opening target = (target.between (target.meet source)).reverse := by
  have hc := length_commonSuite source target
  have hs := length_le_of_startsWith (startsWith_meet_right target source)
  have ht := length_le_of_startsWith (startsWith_meet_left target source)
  rw [meet_comm] at hc
  rw [encloses_iff, startsWith_iff_length_meet] at h
  rw [opening_eq_map, reverse_between_meet]
  -- Either the common suite is the meet, or nothing is below the one or the other.
  have hor : (commonSuite source target).length = (target.meet source).length ∨
      target.length - ((commonSuite source target).length + 1) = 0 ∧
        target.length - ((target.meet source).length + 1) = 0 := by
    omega
  rcases hor with he | ⟨he, he'⟩
  · rw [he]
  · rw [he, he']
    rfl

/-- **Below the meet**: the nodes between the meet of two tests and the second test are the suites
that are entered, except if the first test is a suite around the second one. Then that suite is
entered before them. -/
theorem reverse_between_meet_iff (source target : Path) :
    ((target.between (target.meet source)).reverse = source.opening target ↔
        ¬ source.Encloses target) ∧
      (source.Encloses target →
        source.opening target = source :: (target.between (target.meet source)).reverse) := by
  refine ⟨⟨fun he h => ?_, fun h => (opening_of_not_encloses h).symm⟩, opening_of_encloses⟩
  rw [opening_of_encloses h] at he
  have := congrArg List.length he
  rw [List.length_cons] at this
  omega

/-- The test `A/b` becomes a suite with `A/b/c`, and is entered although nothing is below the meet.
-/
theorem opening_of_testBecomingSuite :
    (ofLabels ["A", "b"]).Encloses (ofLabels ["A", "b", "c"]) ∧
      (ofLabels ["A", "b"]).opening (ofLabels ["A", "b", "c"]) = ofLabels ["A", "b"] ::
        ((ofLabels ["A", "b", "c"]).between
          ((ofLabels ["A", "b", "c"]).meet (ofLabels ["A", "b"]))).reverse := by
  have h : (ofLabels ["A", "b"]).Encloses (ofLabels ["A", "b", "c"]) := by decide
  exact ⟨h, (reverse_between_meet_iff (ofLabels ["A", "b"]) (ofLabels ["A", "b", "c"])).2 h⟩

/-! ### The number of suites -/

theorem length_add_length_closing (source target : Path) :
    (commonSuite source target).length + (source.closing target).length =
      source.suite.length := by
  have := congrArg List.length (labels_closing source target)
  rwa [List.length_append, List.length_reverse, List.length_map] at this

theorem length_add_length_opening (source target : Path) :
    (commonSuite source target).length + (source.opening target).length =
      target.suite.length := by
  have := congrArg List.length (labels_opening source target)
  rwa [List.length_append, List.length_map] at this

end Path

namespace Event.Outline

variable {outline next last : Outline}

/-- **One event** of a suite opens a suite or closes one, so that the open suites come at most one
step nearer to any others. All other events leave them as they are. -/
theorem length_le_of_step {e : Event} (h : outline.step e = some next) (others : List String) :
    outline.length + 2 * Path.commonLength next.reverse others ≤
      next.length + [e].countP isSuite + 2 * Path.commonLength outline.reverse others := by
  have hother : outline = next → outline.length + 2 * Path.commonLength next.reverse others ≤
      next.length + [e].countP isSuite + 2 * Path.commonLength outline.reverse others := by
    rintro rfl
    omega
  cases e with
  | testStarted | testFinished | testFailed | testIgnored =>
    exact hother (Option.some.inj h)
  | suiteStarted name location =>
    obtain rfl : name :: outline = next := Option.some.inj h
    have hn : [suiteStarted name location].countP isSuite = 1 := rfl
    have hc := (Path.commonLength_concat outline.reverse others name).2
    rw [hn, List.reverse_cons, List.length_cons]
    omega
  | suiteFinished name =>
    cases outline with
    | nil => cases h
    | cons top rest =>
      have hn : [suiteFinished name].countP isSuite = 1 := rfl
      have hc := (Path.commonLength_concat rest.reverse others top).1
      by_cases ht : top = name
      · obtain rfl : rest = next := by rwa [step, if_pos ht, Option.some.injEq] at h
        rw [hn, List.reverse_cons, List.length_cons]
        omega
      · rw [step, if_neg ht] at h
        cases h

/-- **Any events** that lead from open suites to others are at least as many events of suites as
there are suites open only before or only after them. -/
theorem length_le_of_run {events : List Event} (h : outline.run events = some last) :
    outline.length + last.length ≤
      events.countP isSuite + 2 * Path.commonLength outline.reverse last.reverse := by
  induction events generalizing outline with
  | nil =>
    obtain rfl : outline = last := Option.some.inj h
    have hc := Path.length_le_commonLength (List.prefix_refl outline.reverse)
      (List.prefix_refl outline.reverse)
    rw [List.length_reverse] at hc
    omega
  | cons e rest ih =>
    obtain ⟨next, hs, hr⟩ := Option.bind_eq_some_iff.mp h
    have hrest := ih hr
    have hstep := length_le_of_step hs last.reverse
    rw [← List.singleton_append, List.countP_append]
    omega

end Event.Outline

namespace Progress

variable {source target : Path}

theorem length_openSuites (p : Path) : (openSuites p).length = p.suite.length :=
  List.length_reverse

/-- No console gets from the suites around a test to those around another one with fewer events of
suites than there are suites to leave and to enter. -/
theorem length_le_countP_isSuite {events : List Event}
    (h : (openSuites source).run events = some (openSuites target)) :
    (source.closing target).length + (source.opening target).length ≤
      events.countP Event.isSuite := by
  have hrun := Event.Outline.length_le_of_run h
  have hclose := Path.length_add_length_closing source target
  have hopen := Path.length_add_length_opening source target
  have hc : Path.commonLength (openSuites source).reverse (openSuites target).reverse =
      (Path.commonSuite source target).length := by
    rw [openSuites, openSuites, List.reverse_reverse, List.reverse_reverse, Path.commonSuite,
      Path.length_meet]
  rw [hc, length_openSuites, length_openSuites] at hrun
  omega

theorem countP_isSuite_move (source target : Path) :
    (move source target).countP Event.isSuite =
      (source.closing target).length + (source.opening target).length := by
  rw [List.countP_eq_length.mpr fun e he => isSuite_of_mem_move he]
  simp [move]

/-- **The suites that are left and entered** between two tests. Those around the first test only are
left, each once and the innermost first; those around the second test only are entered, each once
and the outermost first. So no suite is left and entered at once, none that is open is entered, and
none around the second test is left. Together they are as few as can be: a console that gets from
the suites around the first test to those around the second opens and closes no fewer. -/
theorem suites_left_and_entered (source target : Path) :
    (∀ suite, suite ∈ source.closing target ↔
        suite.Encloses source ∧ ¬ suite.Encloses target) ∧
      ((source.closing target).Pairwise fun inner outer => outer.length < inner.length) ∧
      (∀ suite, suite ∈ source.opening target ↔
        suite.Encloses target ∧ ¬ suite.Encloses source) ∧
      ((source.opening target).Pairwise fun outer inner => outer.length < inner.length) ∧
      (∀ suite ∈ source.closing target, suite ∉ source.opening target) ∧
      (∀ suite ∈ source.opening target, ¬ suite.Encloses source) ∧
      (∀ suite ∈ source.closing target, ¬ suite.Encloses target) ∧
      IsLeast {n | ∃ events : List Event,
          (openSuites source).run events = some (openSuites target) ∧
          events.countP Event.isSuite = n}
        ((source.closing target).length + (source.opening target).length) := by
  have hopen : ∀ suite ∈ source.opening target, ¬ suite.Encloses source :=
    fun suite hs => (Path.mem_opening_iff.mp hs).2
  refine ⟨fun _ => Path.mem_closing_iff, Path.pairwise_closing source target,
    fun _ => Path.mem_opening_iff, Path.pairwise_opening source target, ?_, hopen,
    fun suite hs => (Path.mem_closing_iff.mp hs).2, ?_, ?_⟩
  · intro suite hclosed hopened
    exact hopen suite hopened (Path.mem_closing_iff.mp hclosed).1
  · exact ⟨move source target, run_move source target, countP_isSuite_move source target⟩
  · rintro n ⟨events, hrun, rfl⟩
    exact length_le_countP_isSuite hrun

end Progress

end TestTree
