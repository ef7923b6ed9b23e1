import TestTree.Proofs.Json.Arrangement
import TestTree.Report.Failure

/-! # Reading back failures

What is read of a failure is read back from the value that it is written as, however the members of
that value are arranged (`Failure.ensures_read`). Details tell a comparison from anything else by
what they read as: a comparison is read back as one (`Details.read_comparison`), and other details
are kept as they were given, so they do not read as a comparison afterwards if they did not before.
An explanation may be given as a sequence; it is written as an object. -/

namespace TestTree.Report

open Json (Arrangement Ensures readNullable readAny)
open Json.Schema (ensures_seq ensures_map ensures_required ensures_optional)

variable {arrange : Json → Json} {Settled : Json → Prop}

theorem ofAny?_map {α : Type} (write : α → Json) (a? : Option α) :
    ofAny? (a?.map write) = a?.elim .null write := by
  cases a? <;> rfl

section Arranged

variable (ha : Arrangement arrange Settled)
include ha

/-! ### Compared values -/

/-- A value that was read as it is, or null, is read back. -/
theorem ensures_readNullable_readAny :
    Ensures Settled (readNullable readAny) fun v? =>
      readNullable readAny (arrange (ofAny? v?)) = .ok v? := by
  intro v v? hv hr
  cases v with
  | null =>
    obtain rfl := Except.ok.inj hr
    exact ha.readNullable_null readAny
  | _ =>
    obtain rfl := Except.ok.inj hr
    exact ha.read_kept hv hr rfl

/-! ### Details -/

theorem Details.read_comparison {actual expected : Option Json} (expectation : Option String)
    (hactual : readNullable readAny (arrange (ofAny? actual)) = .ok actual)
    (hexpected : readNullable readAny (arrange (ofAny? expected)) = .ok expected) :
    Details.read (arrange (Details.comparison actual expected expectation).toJson) =
      .ok (.comparison actual expected expectation) := by
  have hreads : Details.schema.Reads
      (fun key => (Json.Members.find? key [("actual", ofAny? actual),
        ("expected", ofAny? expected), ("comparison", .ofText? expectation)]).map arrange)
      (.comparison actual expected expectation) := by
    refine .seq (.seq (.map ?actual) ?expected) ?expectation
    case actual => exact .member rfl hactual
    case expected => exact .member rfl hexpected
    case expectation => exact .member rfl (ha.readNullable_ofText? expectation)
  obtain ⟨arranged, he, hr⟩ := ha.exists_readMembers (by simp) hreads
  rw [Details.toJson, he, Details.read, hr]

theorem Details.schema_ensures :
    Details.schema.Ensures Settled fun d => Details.read (arrange d.toJson) = .ok d := by
  have hany := ensures_readNullable_readAny ha
  have hnone := ha.readNullable_null readAny
  refine ensures_seq (ensures_seq (ensures_map (ensures_optional hany hnone) ?_)
    (ensures_optional hany hnone)) (ensures_optional (Json.ensures_trivial _ _) trivial)
  intro actual hactual expected hexpected expectation _
  exact Details.read_comparison ha expectation hactual hexpected

/-- **Details** are read back if they were read before. -/
theorem Details.ensures_read :
    Ensures Settled Details.read fun d => Details.read (arrange d.toJson) = .ok d := by
  intro v d hv hr
  have hother (h : d = .other v) : Details.read (arrange d.toJson) = .ok d :=
    ha.read_kept hv hr (by rw [h, Details.toJson])
  cases v with
  | object members =>
    simp only [Details.read] at hr
    split at hr
    · next details hs =>
      obtain rfl := Except.ok.inj hr
      exact (Details.schema_ensures ha).readMembers (ha.hereditary.member hv) hs
    · exact hother (Except.ok.inj hr).symm
  | _ => exact hother (Except.ok.inj hr).symm

/-! ### Explanations -/

theorem Reason.schema_ensures :
    Reason.schema.Ensures Settled fun r =>
      Reason.schema.read "FailureReason" (arrange r.toJson) = .ok r := by
  refine ensures_seq (ensures_map (ensures_required (Json.ensures_trivial _ _)) ?_)
    (ensures_required (Details.ensures_read ha))
  intro kind _ details hd
  refine ha.read_object _ (by simp) (.seq (.map ?kind) ?details)
  case kind => exact .member rfl (ha.readString kind)
  case details => exact .member rfl hd

theorem ensures_readReason :
    Ensures Settled (readNullable (Reason.schema.read "FailureReason")) fun reason =>
      readNullable (Reason.schema.read "FailureReason")
        (arrange (ofAny? (reason.map Reason.toJson))) = .ok reason := by
  simp only [ofAny?_map]
  refine ha.ensures_readNullable fun v r hv hr => ⟨ha.object_ne_null (by simp), ?_⟩
  exact (Reason.schema_ensures ha).read ha.hereditary _ v r hv hr

theorem Failure.read_explained {e : Explanation}
    (hgiven : readNullable readAny (arrange (ofAny? e.given)) = .ok e.given)
    (hreason : readNullable (Reason.schema.read "FailureReason")
      (arrange (ofAny? (e.reason.map Reason.toJson))) = .ok e.reason) :
    Failure.read (arrange (Failure.explained e).toJson) = .ok (.explained e) := by
  obtain ⟨given, message, reason⟩ := e
  have hreads : Explanation.schema.Reads
      (fun key => (Json.Members.find? key [("given", ofAny? given), ("message", .string message),
        ("reason", ofAny? (reason.map Reason.toJson))]).map arrange) ⟨given, message, reason⟩ := by
    refine .seq (.seq (.map ?given) ?message) ?reason
    case given => exact .member rfl hgiven
    case message => exact .member rfl (ha.readString message)
    case reason => exact .member rfl hreason
  obtain ⟨arranged, he, hr⟩ := ha.exists_readMembers (by simp) hreads
  simp only [Failure.toJson, he, Failure.read, Json.Schema.read, hr]

theorem Explanation.schema_ensures :
    Explanation.schema.Ensures Settled fun e =>
      Failure.read (arrange (Failure.explained e).toJson) = .ok (.explained e) := by
  refine ensures_seq (ensures_seq (ensures_map
    (ensures_optional (ensures_readNullable_readAny ha) (ha.readNullable_null _)) ?_)
    (ensures_required (Json.ensures_trivial _ _)))
    (ensures_optional (ensures_readReason ha) (ha.readNullable_null _))
  intro given hgiven message _ reason hreason
  exact Failure.read_explained ha hgiven hreason

/-- **A failure** is read back if it was read before. -/
theorem Failure.ensures_read :
    Ensures Settled Failure.read fun f => Failure.read (arrange f.toJson) = .ok f := by
  have hexplained := (Explanation.schema_ensures ha).read ha.hereditary "DetailedFailure"
  intro v f hv hr
  unfold Failure.read at hr
  split at hr
  · next message =>
    obtain rfl := Except.ok.inj hr
    rw [Failure.toJson, ha.string]
    rfl
  · split at hr
    · next e he =>
      obtain rfl := Except.ok.inj hr
      exact hexplained v e hv he
    · cases hr

end Arranged

end TestTree.Report
