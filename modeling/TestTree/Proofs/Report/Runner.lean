import TestTree.Proofs.Json.Ensures
import TestTree.Proofs.Report.Records
import TestTree.Proofs.Text.Blank
import TestTree.Proofs.Text.Numeral

/-! # Which records of a runner are read

An object is a record of a runner if `event` has a name of one and `type` has no string: `IsEvent`.
The three kinds of records differ in what they ask of their members.

* `of_read_eq_ok`: what a value that is read as a report has to be.
* `read_runStart`, `read_runComplete`: the start and the end of a run are read in any case.
* `Status.read_eq_ok_iff`, `readDuration_eq_ok_iff`: the values that are an outcome, and those that
  are a duration.
* `read_testCompleted_iff`: what the members have to be for a completed test, and which test they
  describe then (`describes_of_read`). Otherwise there is a mismatch (`exists_read_eq_error`). -/

namespace TestTree.Report

open Json (readString readAny readList_eq_ok_iff)
open Json.Schema (IsTotal reads_required reads_defaulted isTotal_seq isTotal_map isTotal_defaulted
  readMembers_eq_ok_iff)

variable {members : Json.Members}

/-- **The records of a runner** with a name. -/
structure IsEvent (name : String) (members : Json.Members) : Prop where
  event : members.find? "event" = some (.string name)
  untyped : ∀ tag, members.find? "type" ≠ some (.string tag)

/-- A record of a runner is read as its name says. -/
theorem read_of_isEvent {name : String} {tag : RunnerTag} (h : IsEvent name members)
    (htag : RunnerTag.ofName? name = some tag) :
    read (.object members) =
      (RunnerRecord.readMembers tag (members.find? ·)).map fun r => some (.runner r) := by
  have htype := h.untyped
  rw [read, readMembers]
  split
  · next name hname => exact absurd hname (htype name)
  · simp only [h.event, htag]

/-- **A report** is one of the compiler or a record of a runner, and is read as its name says. -/
theorem of_read_eq_ok {v : Json} {r : Report} (h : read v = .ok (some r)) :
    ∃ members : Json.Members, v = .object members ∧
      ((∃ name tag c, members.find? "type" = some (.string name) ∧
          CompilerTag.ofName? name = some tag ∧
          CompileReport.readMembers tag (members.find? ·) = .ok c ∧ r = .compiler c) ∨
        ∃ name tag c, IsEvent name members ∧ RunnerTag.ofName? name = some tag ∧
          RunnerRecord.readMembers tag (members.find? ·) = .ok c ∧ r = .runner c) := by
  cases v with
  | object members =>
    refine ⟨members, rfl, ?_⟩
    simp only [read, readMembers] at h
    split at h
    · next name hname =>
      split at h
      · next tag htag =>
        obtain ⟨c, hc, he⟩ := Json.exists_of_map_eq_ok h
        exact .inl ⟨name, tag, c, hname, htag, hc, (Option.some.inj he).symm⟩
      · cases h
    · next huntyped =>
      split at h
      · next name hname =>
        split at h
        · next tag htag =>
          obtain ⟨c, hc, he⟩ := Json.exists_of_map_eq_ok h
          exact .inr ⟨name, tag, c, ⟨hname, huntyped⟩, htag, hc, (Option.some.inj he).symm⟩
        · cases h
      · cases h
  | _ => cases h

/-! ### The start and the end of a run -/

theorem RunStart.isTotal_schema : RunStart.schema.IsTotal :=
  isTotal_seq (isTotal_seq (isTotal_seq (isTotal_map (isTotal_defaulted readText_ok none))
    (isTotal_defaulted readText_ok none)) (isTotal_defaulted readText_ok none))
    (isTotal_defaulted readFiles_ok [])

theorem RunComplete.isTotal_schema : RunComplete.schema.IsTotal :=
  isTotal_seq (isTotal_seq (isTotal_seq (isTotal_seq
    (isTotal_map (isTotal_defaulted readText_ok none)) (isTotal_defaulted readText_ok none))
    (isTotal_defaulted readText_ok none)) (isTotal_defaulted readFiles_ok []))
    (isTotal_defaulted readText_ok none)

/-- **The start of a run** is read whatever else the record has. -/
theorem read_runStart (h : IsEvent "runStart" members) :
    ∃ start, read (.object members) = .ok (some (.runner (.runStart start))) := by
  obtain ⟨start, hs⟩ := RunStart.isTotal_schema (members.find? ·)
  refine ⟨start, ?_⟩
  rw [read_of_isEvent h rfl, RunnerRecord.readMembers, readMembers_eq_ok_iff.mpr hs]
  rfl

/-- **The end of a run** is read whatever else the record has. -/
theorem read_runComplete (h : IsEvent "runComplete" members) :
    ∃ complete, read (.object members) = .ok (some (.runner (.runComplete complete))) := by
  obtain ⟨complete, hc⟩ := RunComplete.isTotal_schema (members.find? ·)
  refine ⟨complete, ?_⟩
  rw [read_of_isEvent h rfl, RunnerRecord.readMembers, readMembers_eq_ok_iff.mpr hc]
  rfl

/-! ### Outcomes and durations -/

/-- **The values that are an outcome**: its name, and an object with its name alone, which has
nothing under it. -/
inductive IsStatus : Json → Status → Prop
  | name (status : Status) : IsStatus (.string status.name) status
  | null (status : Status) : IsStatus (.object [(status.name, .null)]) status
  | empty (status : Status) : IsStatus (.object [(status.name, .object [])]) status

theorem Status.ofName_eq_ok_iff {name : String} {status : Status} :
    ofName name = .ok status ↔ name = status.name := by
  constructor
  · intro h
    unfold ofName at h
    split at h
    · next hn => cases h; exact hn
    split at h
    · next hn => cases h; exact hn
    split at h
    · next hn => cases h; exact hn
    · cases h
  · rintro rfl
    cases status <;> rfl

theorem readNothing_eq_ok_iff {v : Json} : readNothing v = .ok () ↔ v = .null ∨ v = .object [] := by
  constructor
  · intro h
    unfold readNothing at h
    split at h
    · exact .inl rfl
    · exact .inr rfl
    · cases h
  · rintro (rfl | rfl) <;> rfl

/-- **What is read as an outcome.** -/
theorem Status.read_eq_ok_iff {v : Json} {status : Status} :
    read v = .ok status ↔ IsStatus v status := by
  constructor
  · intro h
    unfold read at h
    split at h
    · obtain rfl := ofName_eq_ok_iff.mp h
      exact .name status
    · next name value =>
      rcases hn : ofName name with m | s
      · rw [hn] at h
        cases h
      rcases hv : readNothing value with m | u
      · rw [hn, hv] at h
        cases h
      rw [hn, hv] at h
      obtain rfl : s = status := Except.ok.inj h
      obtain rfl := ofName_eq_ok_iff.mp hn
      rcases readNothing_eq_ok_iff.mp hv with rfl | rfl
      · exact .null s
      · exact .empty s
    · cases h
    · cases h
  · rintro (- | - | -) <;> cases status <;> rfl

/-- **The values that are a duration**: the number itself, and a text that has a numeral of it
between white space. -/
inductive IsDuration : Json → UInt64 → Prop
  | number (d : UInt64) : IsDuration (.ofNat d.toNat) d
  | text {s : String} {before numeral after : List Char} {d : UInt64}
    (hs : s.toList = before ++ numeral ++ after)
    (hbefore : ∀ c ∈ before, c.toNat ∈ Text.whiteSpace)
    (hafter : ∀ c ∈ after, c.toNat ∈ Text.whiteSpace)
    (hn : Text.Numeral.IsNumeral numeral d.toNat) : IsDuration (.string s) d

theorem isBlank_of_isNumeral {numeral : List Char} {n : Nat}
    (h : Text.Numeral.IsNumeral numeral n) : ∀ c ∈ numeral, Text.isBlank c = false := by
  obtain ⟨digits, hd, -, hdigit, -⟩ := h
  have hblank (c : Char) (hc : c ∈ digits) : Text.isBlank c = false := by
    have h9 := hdigit c hc
    simp only [Char.isDigit, Bool.and_eq_true, decide_eq_true_eq, UInt32.le_iff_toNat_le,
      ge_iff_le] at h9
    have hval : c.val.toNat = c.toNat := rfl
    have hzero : '0'.val.toNat = 0x30 := rfl
    have hnine : '9'.val.toNat = 0x39 := rfl
    simp only [Text.isBlank, Bool.or_eq_false_iff, Bool.and_eq_false_iff, decide_eq_false_iff_not]
    omega
  rcases hd with rfl | rfl
  · exact hblank
  · exact List.forall_mem_cons.mpr ⟨rfl, hblank⟩

/-- A trimmed text is a numeral if the text has a numeral between white space. -/
theorem isNumeral_trim_iff {text : List Char} {n : Nat} :
    Text.Numeral.IsNumeral (Text.trim text) n ↔
      ∃ before numeral after : List Char, text = before ++ numeral ++ after ∧
        (∀ c ∈ before, c.toNat ∈ Text.whiteSpace) ∧ (∀ c ∈ after, c.toNat ∈ Text.whiteSpace) ∧
        Text.Numeral.IsNumeral numeral n := by
  simp only [← Text.forall_isBlank_iff]
  constructor
  · intro h
    obtain ⟨⟨before, after, ht, hbefore, hafter⟩, -⟩ :=
      Text.trim_eq_iff.mp (Eq.refl (Text.trim text))
    exact ⟨before, _, after, ht, hbefore, hafter, h⟩
  · rintro ⟨before, numeral, after, ht, hbefore, hafter, hn⟩
    have hblank := isBlank_of_isNumeral hn
    rwa [Text.trim_eq_iff.mpr ⟨⟨before, after, ht, hbefore, hafter⟩,
      fun c hc => hblank c (List.mem_of_mem_head? hc),
      fun c hc => hblank c (List.mem_of_mem_getLast? hc)⟩]

/-- **What is read as a duration.** -/
theorem readDuration_eq_ok_iff {v : Json} {d : UInt64} :
    readDuration v = .ok d ↔ IsDuration v d := by
  have hd : d.toNat < Nat.pow 2 64 := d.toNat_lt
  constructor
  · intro h
    unfold readDuration at h
    split at h
    · next n =>
      split at h
      · next hn =>
        obtain rfl := Except.ok.inj h
        have hlt : n.toNat < Nat.pow 2 64 := by omega
        have he : (UInt64.ofNat n.toNat).toNat = n.toNat := UInt64.toNat_ofNat_of_lt' hlt
        have hnum := IsDuration.number (UInt64.ofNat n.toNat)
        rwa [he, Json.ofNat, Int.toNat_of_nonneg hn.1] at hnum
      · cases h
    · next s =>
      split at h
      · next n hn =>
        obtain rfl := Except.ok.inj h
        obtain ⟨hnum, hle⟩ := Text.Numeral.read_eq_ok_iff.mp hn
        have hlt : n < Nat.pow 2 64 := Nat.lt_of_le_sub_one (by decide) hle
        have he : (UInt64.ofNat n).toNat = n := UInt64.toNat_ofNat_of_lt' hlt
        obtain ⟨before, numeral, after, hs, hbefore, hafter, hn⟩ := isNumeral_trim_iff.mp hnum
        exact .text hs hbefore hafter (by rwa [he])
      · cases h
    · cases h
  · intro h
    cases h with
    | number =>
      have hr : (0 : Int) ≤ d.toNat ∧ (d.toNat : Int) < Nat.pow 2 64 :=
        ⟨Int.natCast_nonneg _, Int.ofNat_lt.mpr hd⟩
      rw [Json.ofNat, readDuration, if_pos hr, Int.toNat_natCast, UInt64.ofNat_toNat]
    | text hs hbefore hafter hn =>
      have hnum := isNumeral_trim_iff.mpr ⟨_, _, _, hs, hbefore, hafter, hn⟩
      rw [readDuration, Text.Numeral.read_eq_ok_iff.mpr ⟨hnum, Nat.le_sub_one_of_lt hd⟩]
      exact congrArg Except.ok UInt64.ofNat_toNat

/-! ### Completed tests -/

/-- **The members of a completed test**: its outcome and its labels have to be there, and its
failures and its duration may be missing. -/
structure Describes (members : Json.Members) (t : TestCompleted) : Prop where
  status : ∃ v, members.find? "status" = some v ∧ IsStatus v t.status
  labels : members.find? "labels" = some (.array (t.labels.map .string))
  failures : members.find? "failures" = some (.array t.failures) ∨
    members.find? "failures" = none ∧ t.failures = []
  duration : (∃ v, members.find? "duration" = some v ∧ IsDuration v t.duration) ∨
    members.find? "duration" = none ∧ t.duration = 0

theorem readStrings_eq_ok_iff {v : Json} {texts : List String} :
    Json.readList readString v = .ok texts ↔ v = .array (texts.map .string) :=
  readList_eq_ok_iff fun _ _ => Json.readString_eq_ok_iff

theorem readValues_eq_ok_iff {v : Json} {items : List Json} :
    Json.readList readAny v = .ok items ↔ v = .array items := by
  have h : Json.readList readAny v = .ok items ↔ v = .array (items.map id) :=
    readList_eq_ok_iff fun v w => by rw [readAny, Except.ok.injEq, id]
  rwa [List.map_id] at h

/-- What the schema reads is what the members describe. -/
theorem TestCompleted.reads_iff {t : TestCompleted} :
    TestCompleted.schema.Reads (members.find? ·) t ↔ Describes members t := by
  constructor
  · intro h
    obtain ⟨hs, hl, hf, hd⟩ := TestCompleted.of_reads h
    simp only [reads_required, reads_defaulted, Status.read_eq_ok_iff, readStrings_eq_ok_iff,
      readValues_eq_ok_iff, readDuration_eq_ok_iff] at hs hl hf hd
    obtain ⟨v, hv, rfl⟩ := hl
    refine ⟨hs, hv, ?_, hd⟩
    rcases hf with ⟨w, hw, rfl⟩ | hf
    · exact .inl hw
    · exact .inr hf
  · intro h
    refine .seq (.seq (.seq (.map ?status) ?labels) ?failures) ?duration
    case status =>
      obtain ⟨v, hv, hs⟩ := h.status
      exact .member hv (Status.read_eq_ok_iff.mpr hs)
    case labels => exact .member h.labels (readStrings_eq_ok_iff.mpr rfl)
    case failures =>
      exact reads_defaulted.mpr (h.failures.imp_left fun hf =>
        ⟨_, hf, readValues_eq_ok_iff.mpr rfl⟩)
    case duration =>
      refine reads_defaulted.mpr (h.duration.imp_left ?_)
      rintro ⟨v, hv, hd⟩
      exact ⟨v, hv, readDuration_eq_ok_iff.mpr hd⟩

/-- **Which completed tests are read.** -/
theorem read_testCompleted_iff (h : IsEvent "testCompleted" members) {report : Report} :
    read (.object members) = .ok (some report) ↔
      ∃ t, Describes members t ∧ report = .runner (.testCompleted t) := by
  rw [read_of_isEvent h rfl, RunnerRecord.readMembers]
  constructor
  · intro hr
    obtain ⟨r, hr, he⟩ := Json.exists_of_map_eq_ok hr
    obtain ⟨t, ht, rfl⟩ := Json.exists_of_map_eq_ok hr
    exact ⟨t, TestCompleted.reads_iff.mp (readMembers_eq_ok_iff.mp ht), (Option.some.inj he).symm⟩
  · rintro ⟨t, ht, rfl⟩
    rw [readMembers_eq_ok_iff.mpr (TestCompleted.reads_iff.mpr ht)]
    rfl

theorem name_of_ofName? {name : String} (h : RunnerTag.ofName? name = some .testCompleted) :
    name = "testCompleted" := by
  unfold RunnerTag.ofName? at h
  split_ifs at h with hstart hcomplete htest
  · cases h
  · cases h
  · exact htest

/-- A value that is read as a completed test is a record of one. -/
theorem describes_of_read {v : Json} {t : TestCompleted}
    (h : read v = .ok (some (.runner (.testCompleted t)))) :
    ∃ members : Json.Members, v = .object members ∧ IsEvent "testCompleted" members ∧
      Describes members t := by
  obtain ⟨members, rfl, hc⟩ := of_read_eq_ok h
  refine ⟨members, rfl, ?_⟩
  rcases hc with ⟨_, _, _, _, _, _, he⟩ | ⟨name, tag, r, hevent, htag, hr, he⟩
  · cases he
  obtain rfl := Report.runner.inj he
  cases tag with
  | runStart =>
    obtain ⟨start, -, hs⟩ := Json.exists_of_map_eq_ok hr
    cases hs
  | runComplete =>
    obtain ⟨complete, -, hs⟩ := Json.exists_of_map_eq_ok hr
    cases hs
  | testCompleted =>
    obtain rfl := name_of_ofName? htag
    obtain ⟨t', ht, he⟩ := (read_testCompleted_iff hevent).mp h
    obtain rfl : t = t' := by simpa using he
    exact ⟨hevent, ht⟩

/-- **Other completed tests** are a mismatch. -/
theorem exists_read_eq_error (h : IsEvent "testCompleted" members)
    (hn : ∀ t, ¬ Describes members t) : ∃ m, read (.object members) = .error m := by
  rw [read_of_isEvent h rfl, RunnerRecord.readMembers]
  rcases ht : TestCompleted.schema.readMembers (members.find? ·) with m | t
  · exact ⟨m, rfl⟩
  · exact absurd (TestCompleted.reads_iff.mp (readMembers_eq_ok_iff.mp ht)) (hn t)

end TestTree.Report
