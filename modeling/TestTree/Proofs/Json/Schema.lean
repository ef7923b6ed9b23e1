import TestTree.Json.Schema
import Mathlib.Data.List.Forall2

/-! # What a schema reads

`Schema.Reads schema find? a`: no member is at fault, and the record is `a`. It is what reading the
members of an object comes down to (`readMembers_eq_ok_iff`), and it is known for a schema from what
it is built of (`reads_pure`, `reads_seq`, `reads_map`, `reads_member` and its cases). `Reads.map`,
`Reads.seq` and `Reads.member` put a record together member by member. A schema `IsTotal` if it
reads any members, and that too is known from its parts. -/

namespace TestTree.Json

variable {α β : Type}

/-! ### Single values -/

theorem readString_eq_ok_iff {v : Json} {s : String} : readString v = .ok s ↔ v = .string s := by
  cases v with
  | string s' => rw [readString, Except.ok.injEq, Json.string.injEq]
  | _ => exact ⟨fun h => (nomatch h), fun h => (nomatch h)⟩

theorem readBool_eq_ok_iff {v : Json} {b : Bool} : readBool v = .ok b ↔ v = .bool b := by
  cases v with
  | bool b' => rw [readBool, Except.ok.injEq, Json.bool.injEq]
  | _ => exact ⟨fun h => (nomatch h), fun h => (nomatch h)⟩

theorem readNullable_of_ne_null {read : Reading α} {v : Json} (h : v ≠ .null) :
    readNullable read v = (read v).map some := by
  cases v with
  | null => exact absurd rfl h
  | _ => rfl

/-- **What is read as a value or null** is null, or is read as a value. -/
theorem readNullable_cases {read : Reading α} {v : Json} {a? : Option α}
    (h : readNullable read v = .ok a?) :
    v = .null ∧ a? = none ∨ v ≠ .null ∧ ∃ a, read v = .ok a ∧ a? = some a := by
  by_cases hnull : v = .null
  · subst hnull
    exact .inl ⟨rfl, (Except.ok.inj h).symm⟩
  · rw [readNullable_of_ne_null hnull] at h
    rcases hr : read v with m | a
    · rw [hr] at h
      cases h
    · rw [hr] at h
      exact .inr ⟨hnull, a, rfl, (Except.ok.inj h).symm⟩

theorem readNullable_ofText? (text : Option String) :
    readNullable readString (.ofText? text) = .ok text := by
  cases text <;> rfl

theorem readUnsigned_ofNat {bits n : Nat} (h : n < Nat.pow 2 bits) :
    readUnsigned bits (.ofNat n) = .ok n := by
  rw [Json.ofNat, readUnsigned, if_pos ⟨Int.natCast_nonneg n, Int.ofNat_lt.mpr h⟩]
  rfl

/-! ### Lists -/

/-- Items are read one after the other. -/
theorem mapM_cons_eq_ok_iff {read : Reading α} {v : Json} {items : List Json} {as : List α} :
    (v :: items).mapM read = .ok as ↔
      ∃ a others, as = a :: others ∧ read v = .ok a ∧ items.mapM read = .ok others := by
  rw [List.mapM_cons]
  show ((read v).bind fun a => (items.mapM read).bind fun others => .ok (a :: others)) = _ ↔ _
  constructor
  · intro h
    rcases hv : read v with m | a
    · rw [hv] at h
      cases h
    rcases hitems : items.mapM read with m | others
    · rw [hv, hitems] at h
      cases h
    rw [hv, hitems] at h
    exact ⟨a, others, (Except.ok.inj h).symm, rfl, rfl⟩
  · rintro ⟨a, others, rfl, hv, hitems⟩
    rw [hv, hitems]
    rfl

theorem mapM_nil_eq_ok_iff {read : Reading α} {as : List α} :
    [].mapM read = .ok as ↔ as = [] := by
  rw [List.mapM_nil]
  exact ⟨fun h => (Except.ok.inj h).symm, congrArg Except.ok ∘ Eq.symm⟩

/-- **A list of values** is read item by item. -/
theorem mapM_eq_ok_iff {read : Reading α} {items : List Json} {as : List α} :
    items.mapM read = .ok as ↔ List.Forall₂ (fun v a => read v = .ok a) items as := by
  induction items generalizing as with
  | nil => rw [mapM_nil_eq_ok_iff, List.forall₂_nil_left_iff]
  | cons v rest ih =>
    rw [mapM_cons_eq_ok_iff, List.forall₂_cons_left_iff]
    simp only [ih]
    constructor
    · rintro ⟨a, others, rfl, hv, hrest⟩
      exact ⟨a, others, hv, hrest, rfl⟩
    · rintro ⟨a, others, hv, hrest, rfl⟩
      exact ⟨a, others, rfl, hv, hrest⟩

/-- **A list of values** of which each is read from one value only. -/
theorem readList_eq_ok_iff {read : Reading α} {write : α → Json}
    (h : ∀ v a, read v = .ok a ↔ v = write a) {v : Json} {as : List α} :
    readList read v = .ok as ↔ v = .array (as.map write) := by
  have hitems (items : List Json) : items.mapM read = .ok as ↔ items = as.map write := by
    induction items generalizing as with
    | nil => rw [mapM_nil_eq_ok_iff, eq_comm (a := []), List.map_eq_nil_iff]
    | cons v rest ih =>
      rw [mapM_cons_eq_ok_iff, eq_comm (a := v :: rest), List.map_eq_cons_iff]
      simp only [h, ih, eq_comm]
  cases v with
  | array items => rw [readList, hitems, Json.array.injEq]
  | _ => exact ⟨fun hr => (nomatch hr), fun hv => (nomatch hv)⟩

/-! ### Records -/

namespace Schema

variable {find? : String → Option Json}

/-- No member is at fault, and the record is `a`. -/
structure Reads (schema : Schema α) (find? : String → Option Json) (a : α) : Prop where
  faults : schema.faults find? = []
  ofMembers : schema.ofMembers find? = .ok a

theorem leastFault?_eq_none_iff {faults : List (String × Mismatch)} :
    leastFault? faults = none ↔ faults = [] := by
  cases faults with
  | nil => simp [leastFault?]
  | cons fault rest =>
    simp only [leastFault?]
    split
    · split <;> simp
    · simp

/-- **Reading an object**: it gives a record if no member is at fault and none is missing. -/
theorem readMembers_eq_ok_iff {schema : Schema α} {a : α} :
    schema.readMembers find? = .ok a ↔ schema.Reads find? a := by
  unfold readMembers
  split
  · next key m h =>
    refine ⟨fun ha => (nomatch ha), fun ha => ?_⟩
    rw [leastFault?_eq_none_iff.mpr ha.faults] at h
    cases h
  · next h => exact ⟨fun ha => ⟨leastFault?_eq_none_iff.mp h, ha⟩, fun ha => ha.ofMembers⟩

theorem reads_pure {a b : α} : (pure a : Schema α).Reads find? b ↔ a = b := by
  refine ⟨fun h => Except.ok.inj h.ofMembers, ?_⟩
  rintro rfl
  exact ⟨rfl, rfl⟩

/-- Two records, one after the other. -/
theorem reads_seq {f : Schema (α → β)} {x : Schema α} {b : β} :
    (f <*> x).Reads find? b ↔ ∃ g a, f.Reads find? g ∧ x.Reads find? a ∧ g a = b := by
  constructor
  · rintro ⟨hfaults, hof⟩
    obtain ⟨hf, hx⟩ := List.append_eq_nil_iff.mp hfaults
    have hb : (f.ofMembers find?).bind (fun g => (x.ofMembers find?).bind fun a => .ok (g a)) =
        .ok b := hof
    rcases hg : f.ofMembers find? with e | g
    · rw [hg] at hb
      cases hb
    rcases ha : x.ofMembers find? with e | a
    · rw [hg, ha] at hb
      cases hb
    rw [hg, ha] at hb
    exact ⟨g, a, ⟨hf, hg⟩, ⟨hx, ha⟩, Except.ok.inj hb⟩
  · rintro ⟨g, a, hf, hx, rfl⟩
    refine ⟨List.append_eq_nil_iff.mpr ⟨hf.faults, hx.faults⟩, ?_⟩
    show (f.ofMembers find?).bind (fun g => (x.ofMembers find?).bind fun a => .ok (g a)) = _
    rw [hf.ofMembers, hx.ofMembers]
    rfl

theorem reads_map {g : α → β} {x : Schema α} {b : β} :
    (g <$> x).Reads find? b ↔ ∃ a, x.Reads find? a ∧ g a = b := by
  show (pure g <*> x).Reads find? b ↔ _
  rw [reads_seq]
  constructor
  · rintro ⟨g', a, hg, hx, rfl⟩
    obtain rfl := reads_pure.mp hg
    exact ⟨a, hx, rfl⟩
  · rintro ⟨a, hx, rfl⟩
    exact ⟨g, a, reads_pure.mpr rfl, hx, rfl⟩

/-- A member is there and reads, or it is absent and there is a value for that. -/
theorem reads_member {name : String} {read : Reading α} {unnamed unplaced : Option α} {a : α} :
    (member name read unnamed unplaced).Reads find? a ↔
      (∃ v, find? name = some v ∧ read v = .ok a) ∨ (find? name = none ∧ unnamed = some a) := by
  constructor
  · rintro ⟨-, hof⟩
    simp only [member] at hof
    rcases hv : find? name with - | v
    · rw [hv] at hof
      cases unnamed with
      | none => cases hof
      | some b => exact .inr ⟨rfl, congrArg some (Except.ok.inj hof)⟩
    · rw [hv] at hof
      exact .inl ⟨v, rfl, by cases unnamed <;> exact hof⟩
  · rintro (⟨v, hv, hr⟩ | ⟨hv, rfl⟩)
    · refine ⟨?_, ?_⟩
      · simp [member, hv, hr]
      · cases unnamed <;> simp [member, hv, hr]
    · exact ⟨by simp [member, hv], by simp [member, hv]⟩

theorem reads_required {name : String} {read : Reading α} {a : α} :
    (required name read).Reads find? a ↔ ∃ v, find? name = some v ∧ read v = .ok a := by
  rw [required, reads_member]
  simp

theorem reads_optional {name : String} {read : Reading α} {a : Option α} :
    (optional name read).Reads find? a ↔
      (∃ v, find? name = some v ∧ readNullable read v = .ok a) ∨
        (find? name = none ∧ a = none) := by
  rw [optional, reads_member, Option.some.injEq, eq_comm (a := none)]

theorem reads_defaulted {name : String} {read : Reading α} {value a : α} :
    (defaulted name read value).Reads find? a ↔
      (∃ v, find? name = some v ∧ read v = .ok a) ∨ (find? name = none ∧ a = value) := by
  rw [defaulted, reads_member, Option.some.injEq, eq_comm (a := value)]

/-- A member with a value for its absence is refused only for what it is. -/
theorem exists_reads_member_iff {name : String} {read : Reading α} {unnamed unplaced : Option α}
    (h : unnamed ≠ none) :
    (∃ a, (member name read unnamed unplaced).Reads find? a) ↔
      ∀ v, find? name = some v → ∃ a, read v = .ok a := by
  simp only [reads_member]
  constructor
  · rintro ⟨a, ⟨w, hw, hr⟩ | ⟨hn, -⟩⟩ v hv
    · obtain rfl : v = w := Option.some.inj (hv.symm.trans hw)
      exact ⟨a, hr⟩
    · rw [hn] at hv
      cases hv
  · intro hread
    rcases hv : find? name with - | v
    · obtain ⟨a, ha⟩ := Option.ne_none_iff_exists'.mp h
      exact ⟨a, .inr ⟨rfl, ha⟩⟩
    · obtain ⟨a, ha⟩ := hread v hv
      exact ⟨a, .inl ⟨v, rfl, ha⟩⟩

/-! ### Records from their members -/

theorem Reads.map {g : α → β} {x : Schema α} {a : α} (hx : x.Reads find? a) :
    (g <$> x).Reads find? (g a) :=
  reads_map.mpr ⟨a, hx, rfl⟩

theorem Reads.seq {f : Schema (α → β)} {x : Schema α} {g : α → β} {a : α} (hf : f.Reads find? g)
    (hx : x.Reads find? a) : (f <*> x).Reads find? (g a) :=
  reads_seq.mpr ⟨g, a, hf, hx, rfl⟩

/-- A member that is there is read as its value says. -/
theorem Reads.member {name : String} {read : Reading α} {unnamed unplaced : Option α} {v : Json}
    {a : α} (hv : find? name = some v) (hr : read v = .ok a) :
    (Schema.member name read unnamed unplaced).Reads find? a :=
  reads_member.mpr (.inl ⟨v, hv, hr⟩)

/-! ### Records without mismatch -/

/-- Any members are read. -/
def IsTotal (schema : Schema α) : Prop := ∀ find?, ∃ a, schema.Reads find? a

theorem isTotal_pure (a : α) : (pure a : Schema α).IsTotal := fun _ => ⟨a, reads_pure.mpr rfl⟩

theorem isTotal_seq {f : Schema (α → β)} {x : Schema α} (hf : f.IsTotal) (hx : x.IsTotal) :
    (f <*> x).IsTotal := by
  intro find?
  obtain ⟨g, hg⟩ := hf find?
  obtain ⟨a, ha⟩ := hx find?
  exact ⟨g a, reads_seq.mpr ⟨g, a, hg, ha, rfl⟩⟩

theorem isTotal_map {g : α → β} {x : Schema α} (hx : x.IsTotal) : (g <$> x).IsTotal :=
  isTotal_seq (f := pure g) (isTotal_pure g) hx

/-- A member that may be missing, and is read whatever it is. -/
theorem isTotal_defaulted {name : String} {read : Reading α} (h : ∀ v, ∃ a, read v = .ok a)
    (value : α) : (defaulted name read value).IsTotal := by
  intro find?
  exact (exists_reads_member_iff (by simp)).mpr fun v _ => h v

end Schema

end TestTree.Json
