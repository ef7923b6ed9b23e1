import TestTree.Progress.Advance
import TestTree.Proofs.Json.Parsed
import TestTree.Proofs.Report.Problems

/-! # What is shown of a failed test

The first failure of a test tells what is shown. A string is the message itself. A failure with an
explanation has its message in a member of its own, and shows two values if its reason has an
object as its data that is a comparison (`IsComparison`): those that are there and not null
(`IsCompared`). If there is no failure, or the first one is neither, all failures are shown as JSON.

`failureShown_testFailed`: this is what the event of a failed test has (`FailureShown`). -/

namespace TestTree.Report

open Json (memberOf readString readAny readNullable OnlyIntegers)
open Json.Schema (reads_required reads_optional readMembers_eq_ok_iff exists_reads_member_iff
  hasNames_seq hasNames_map hasNames_required hasNames_optional)

/-- The names of the members of a failure with an explanation. -/
def Explanation.memberNames : List String := ["given", "message", "reason"]

/-- The names of the members of a reason. -/
def Reason.memberNames : List String := ["type", "data"]

theorem Explanation.hasNames : Explanation.schema.HasNames Explanation.memberNames :=
  hasNames_seq (hasNames_seq (hasNames_map hasNames_optional) hasNames_required (by simp))
    hasNames_optional (by simp)

theorem Reason.hasNames : Reason.schema.HasNames Reason.memberNames :=
  hasNames_seq (hasNames_map hasNames_required) hasNames_required (by simp)

/-- The data of the reason of a failure. -/
def reasonData? (failure : Json) : Option Json :=
  (memberOf Explanation.memberNames failure "reason").bind (memberOf Reason.memberNames · "data")

/-- **The members of a comparison**: the data of a reason is an object, in which the name of the
expectation may be absent or null but is not anything else than a string. -/
structure IsComparison (failure : Json) (members : Json.Members) : Prop where
  data : reasonData? failure = some (.object members)
  expectation : ∀ v, members.find? "comparison" = some v → v = .null ∨ ∃ s, v = .string s

/-- A value that a failure compares. -/
def IsCompared (failure : Json) (key : String) (v : Json) : Prop :=
  ∃ members, IsComparison failure members ∧ members.find? key = some v ∧ v ≠ .null

/-- What is shown of a compared value. -/
inductive ComparedText (failure : Json) (key : String) : Option String → Prop
  | shown {v : Json} {text : String} (hv : IsCompared failure key v)
    (ht : showValue? v = some text) : ComparedText failure key (some text)
  | absent (h : ∀ v, ¬ IsCompared failure key v) : ComparedText failure key none

/-- **What is shown of the failures of a test**: a message, and what was compared. -/
inductive FailureShown (failures : List Json) :
    (message : String) → (actual expected : Option String) → Prop
  | plain {message : String} (h : failures.head? = some (.string message)) :
    FailureShown failures message none none
  | explained {first : Json} {explanation : Explanation} {message : String}
    {actual expected : Option String} (h : failures.head? = some first)
    (hr : Failure.read first = .ok (.explained explanation))
    (hm : memberOf Explanation.memberNames first "message" = some (.string message))
    (ha : ComparedText first "actual" actual) (he : ComparedText first "expected" expected) :
    FailureShown failures message actual expected
  | raw {message : String} (h : ∀ first, failures.head? = some first →
      ∀ failure, Failure.read first ≠ .ok failure)
    (hm : OnlyIntegers (.array failures) →
      Json.parse? message.toList = some (.array failures)) :
    FailureShown failures message none none

/-! ### Comparisons -/

theorem exists_showValue? {v : Json} (h : v ≠ .null) : ∃ text, showValue? v = some text := by
  cases v with
  | null => exact absurd rfl h
  | _ => exact ⟨_, rfl⟩

variable {failure : Json} {key : String} {members : Json.Members}

/-- The members of a comparison are the same for one failure. -/
theorem isCompared_iff (h : IsComparison failure members) {v : Json} :
    IsCompared failure key v ↔ members.find? key = some v ∧ v ≠ .null := by
  constructor
  · rintro ⟨others, ho, hv⟩
    obtain rfl : others = members :=
      Json.object.inj (Option.some.inj (ho.data.symm.trans h.data))
    exact hv
  · exact fun hv => ⟨members, h, hv⟩

/-- A value that may be missing or null is shown if it is there and not null. -/
theorem comparedText_of_reads (h : IsComparison failure members) {value : Option Json}
    (hr : (Json.Schema.optional key readAny).Reads (members.find? ·) value) :
    ComparedText failure key (value.bind showValue?) := by
  rcases reads_optional.mp hr with ⟨v, hv, hread⟩ | ⟨hn, rfl⟩
  · rcases Json.readNullable_cases hread with ⟨rfl, rfl⟩ | ⟨hnull, w, hw, rfl⟩
    · refine .absent fun w hw => ?_
      obtain ⟨hf, hne⟩ := (isCompared_iff h).mp hw
      exact hne (Option.some.inj (hf.symm.trans hv))
    · obtain rfl := Except.ok.inj hw
      obtain ⟨text, ht⟩ := exists_showValue? hnull
      rw [Option.bind_some, ht]
      exact .shown ((isCompared_iff h).mpr ⟨hv, hnull⟩) ht
  · refine .absent fun w hw => ?_
    obtain ⟨hf, -⟩ := (isCompared_iff h).mp hw
    rw [hn] at hf
    cases hf

/-- **Data that is an object** is a comparison if it reads as one. -/
theorem isComparison_iff (hd : reasonData? failure = some (.object members)) :
    IsComparison failure members ↔
      ∃ details, Details.schema.readMembers (members.find? ·) = .ok details := by
  have hvalue (key : String) :
      ∃ value, (Json.Schema.optional key readAny).Reads (members.find? ·) value := by
    rw [Json.Schema.optional, exists_reads_member_iff (by simp)]
    intro v _
    cases v with
    | null => exact ⟨none, rfl⟩
    | _ => exact ⟨some _, rfl⟩
  have hexpectation := exists_reads_text_iff (members.find? ·) "comparison"
  simp only [readMembers_eq_ok_iff]
  constructor
  · intro h
    obtain ⟨actual, ha⟩ := hvalue "actual"
    obtain ⟨expected, he⟩ := hvalue "expected"
    obtain ⟨text, ht⟩ := hexpectation.mpr h.expectation
    exact ⟨.comparison actual expected text, .seq (.seq (.map ha) he) ht⟩
  · rintro ⟨details, hr⟩
    obtain ⟨_, _, text, -, -, -, ht⟩ := Details.of_reads hr
    exact ⟨hd, hexpectation.mp ⟨text, ht⟩⟩

theorem comparedText_none (h : ∀ members, ¬ IsComparison failure members) (key : String) :
    ComparedText failure key none :=
  .absent fun _ ⟨members, hm, _⟩ => h members hm

/-! ### Explanations -/

theorem reads_of_read {e : Explanation} (h : Failure.read failure = .ok (.explained e)) :
    Explanation.schema.Reads (memberOf Explanation.memberNames failure) e := by
  unfold Failure.read at h
  split at h
  · cases h
  · split at h
    · next e' he =>
      obtain rfl := Failure.explained.inj (Except.ok.inj h)
      exact Explanation.hasNames.reads he
    · cases h

theorem message_of_read {e : Explanation} (h : Failure.read failure = .ok (.explained e)) :
    memberOf Explanation.memberNames failure "message" = some (.string e.message) := by
  obtain ⟨-, hm, -⟩ := Explanation.of_reads (reads_of_read h)
  obtain ⟨v, hv, hread⟩ := reads_required.mp hm
  rw [hv, Json.readString_eq_ok_iff.mp hread]

/-- The data of a reason show what they compare. -/
theorem comparedText_details {d : Json} {details : Details}
    (hd : reasonData? failure = some d) (hr : Details.read d = .ok details)
    (given : Option Json) (message kind : String) :
    let e : Explanation := ⟨given, message, some ⟨kind, details⟩⟩
    ComparedText failure "actual" e.compared.1 ∧ ComparedText failure "expected" e.compared.2 := by
  have hother (v : Json) (hn : ∀ members, ¬ IsComparison failure members) :
      let e : Explanation := ⟨given, message, some ⟨kind, .other v⟩⟩
      ComparedText failure "actual" e.compared.1 ∧ ComparedText failure "expected" e.compared.2 :=
    ⟨comparedText_none hn _, comparedText_none hn _⟩
  cases d with
  | object members =>
    rcases hread : Details.schema.readMembers (Json.Members.find? · members) with m | details'
    · simp only [Details.read, hread, Except.ok.injEq] at hr
      subst hr
      refine hother _ fun others ho => ?_
      obtain rfl : members = others :=
        Json.object.inj (Option.some.inj (hd.symm.trans ho.data))
      obtain ⟨details, hok⟩ := (isComparison_iff hd).mp ho
      rw [hread] at hok
      cases hok
    · simp only [Details.read, hread, Except.ok.injEq] at hr
      subst hr
      have hc := (isComparison_iff hd).mpr ⟨_, hread⟩
      obtain ⟨actual, expected, text, rfl, ha, he, -⟩ :=
        Details.of_reads (readMembers_eq_ok_iff.mp hread)
      exact ⟨comparedText_of_reads hc ha, comparedText_of_reads hc he⟩
  | _ =>
    obtain rfl := Except.ok.inj hr
    refine hother _ fun others ho => ?_
    rw [ho.data] at hd
    cases hd

/-- **What a failure compares** is what its explanation has. -/
theorem comparedText_compared {e : Explanation}
    (h : Failure.read failure = .ok (.explained e)) :
    ComparedText failure "actual" e.compared.1 ∧ ComparedText failure "expected" e.compared.2 := by
  obtain ⟨-, -, hreason⟩ := Explanation.of_reads (reads_of_read h)
  obtain ⟨given, message, reason⟩ := e
  -- without a reason there is no data
  have hnone (hd : reasonData? failure = none) :
      ComparedText failure "actual" none ∧ ComparedText failure "expected" none := by
    have hn (members : Json.Members) : ¬ IsComparison failure members := by
      intro hc
      have hdata := hc.data
      rw [hd] at hdata
      cases hdata
    exact ⟨comparedText_none hn _, comparedText_none hn _⟩
  rcases reads_optional.mp hreason with ⟨v, hv, hread⟩ | ⟨hn, rfl⟩
  · rcases Json.readNullable_cases hread with ⟨rfl, rfl⟩ | ⟨-, r, hr, rfl⟩
    · exact hnone (by rw [reasonData?, hv]; rfl)
    · obtain ⟨-, hdetails⟩ := Reason.of_reads (Reason.hasNames.reads hr)
      obtain ⟨d, hd, hread⟩ := reads_required.mp hdetails
      exact comparedText_details (by rw [reasonData?, hv]; exact hd) hread given message r.kind
  · exact hnone (by rw [reasonData?, hn]; rfl)

/-! ### Failures -/

theorem head_of_read_simple {first : Json} {message : String}
    (h : Failure.read first = .ok (.simple message)) : first = .string message := by
  unfold Failure.read at h
  split at h
  · rw [Failure.simple.inj (Except.ok.inj h)]
  · split at h <;> cases h

theorem firstFailure?_eq_some_iff {t : TestCompleted} {failure : Failure} :
    Progress.firstFailure? t = some failure ↔
      ∃ first, t.failures.head? = some first ∧ Failure.read first = .ok failure := by
  unfold Progress.firstFailure?
  constructor
  · intro h
    split at h
    · next f hf =>
      obtain rfl := Option.some.inj h
      exact Option.map_eq_some_iff.mp hf
    · cases h
  · rintro ⟨first, hh, hr⟩
    rw [hh, Option.map_some, hr]

/-- **The event of a failed test** has what is shown of its failures. -/
theorem failureShown_testFailed {t : TestCompleted}
    (h : Json.IsParsed Json.maxDepth (.array t.failures)) (name : String) :
    ∃ message actual expected, FailureShown t.failures message actual expected ∧
      Progress.testFailed name t = .testFailed name message actual expected false := by
  rcases hf : Progress.firstFailure? t with - | failure
  · refine ⟨_, _, _, .raw (fun first hh failure hr => ?_) (Json.parse?_pretty h), ?_⟩
    · rw [firstFailure?_eq_some_iff.mpr ⟨first, hh, hr⟩] at hf
      cases hf
    · rw [Progress.testFailed, hf]
  · obtain ⟨first, hh, hr⟩ := firstFailure?_eq_some_iff.mp hf
    cases failure with
    | simple message =>
      refine ⟨message, none, none, .plain ?_, by rw [Progress.testFailed, hf]⟩
      rw [hh, head_of_read_simple hr]
    | explained e =>
      obtain ⟨ha, he⟩ := comparedText_compared hr
      exact ⟨e.message, e.compared.1, e.compared.2, .explained hh hr (message_of_read hr) ha he,
        by rw [Progress.testFailed, hf]⟩

end TestTree.Report
