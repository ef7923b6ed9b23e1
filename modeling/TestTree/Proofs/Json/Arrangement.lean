import TestTree.Proofs.Json.Ensures
import TestTree.Proofs.Json.Members
import TestTree.Proofs.Json.RoundTrip

/-! # The order of members

A record is written with its members in an order of its own, and has them in the order of their keys
when it is kept as a value. What is read does not depend on that. An `Arrangement` says so of a way
to write values: the members of an object may change their places, and settled values stay as they
are. There are two of them: to leave everything as it is (`arrangement_id`), and to put all members
in order (`arrangement_normalize`). -/

namespace TestTree.Json

/-- A way to arrange values, and the values that it leaves as they are. -/
structure Arrangement (arrange : Json → Json) (Settled : Json → Prop) : Prop where
  null : arrange .null = .null
  bool (b : Bool) : arrange (.bool b) = .bool b
  number (n : Number) : arrange (.number n) = .number n
  string (s : String) : arrange (.string s) = .string s
  array (items : List Json) : arrange (.array items) = .array (items.map arrange)
  object {members : Members} (h : (members.map Prod.fst).Nodup) :
    ∃ arranged : Members, arrange (.object members) = .object arranged ∧
      ∀ key, arranged.find? key = (members.find? key).map arrange
  settled {v : Json} (h : Settled v) : arrange v = v
  hereditary : IsHereditary Settled

/-! ### As it is -/

theorem arrangement_id : Arrangement id fun _ => True where
  null := rfl
  bool _ := rfl
  number _ := rfl
  string _ := rfl
  array items := by rw [List.map_id, id]
  object {members} _ := ⟨members, rfl, fun key => by rw [Option.map_id, id]⟩
  settled _ := rfl
  hereditary := ⟨fun _ _ _ => trivial, fun _ _ _ _ => trivial⟩

/-! ### In order -/

theorem normalizeItems_eq_map (items : List Json) : normalizeItems items = items.map normalize := by
  induction items with
  | nil => rfl
  | cons item rest ih => rw [normalizeItems, ih, List.map_cons]

theorem map_fst_normalizeMembers (members : Members) :
    (normalizeMembers members).map Prod.fst = members.map Prod.fst := by
  induction members with
  | nil => rfl
  | cons m rest ih =>
    obtain ⟨key, value⟩ := m
    exact congrArg (key :: ·) ih

theorem find?_normalizeMembers (members : Members) (key : String) :
    Members.find? key (normalizeMembers members) = (members.find? key).map normalize := by
  induction members with
  | nil => rfl
  | cons m rest ih =>
    obtain ⟨k, value⟩ := m
    rw [normalizeMembers, Members.find?, Members.find?]
    split_ifs
    · rfl
    · exact ih

/-- **Under each key** of an object with its members in order the value in order is found. -/
theorem find?_sorted_normalizeMembers {members : Members} (h : (members.map Prod.fst).Nodup)
    (key : String) :
    (Members.sorted (normalizeMembers members)).find? key = (members.find? key).map normalize := by
  rw [Members.find?_sorted (map_fst_normalizeMembers members ▸ h), find?_normalizeMembers]

theorem isHereditary_normalize : IsHereditary fun v => normalize v = v where
  item {items} h := by
    rw [normalize, normalizeItems_eq_map, Json.array.injEq] at h
    exact List.map_inj_left.mp (h.trans (List.map_id items).symm)
  member {members} h key v hv := by
    rw [normalize, Json.object.injEq] at h
    -- an object that is in order already has each key once
    have hn : (members.map Prod.fst).Nodup := by
      rw [← h]
      exact Members.nodup_sorted _
    have hf := find?_sorted_normalizeMembers hn key
    rw [h, hv, Option.map_some, Option.some.injEq] at hf
    exact hf.symm

theorem arrangement_normalize : Arrangement normalize fun v => normalize v = v where
  null := rfl
  bool _ := rfl
  number _ := rfl
  string _ := rfl
  array items := by rw [normalize, normalizeItems_eq_map]
  object h := ⟨_, rfl, find?_sorted_normalizeMembers h⟩
  settled h := h
  hereditary := isHereditary_normalize

/-! ### Reading what was arranged -/

namespace Arrangement

variable {α : Type} {arrange : Json → Json} {Settled : Json → Prop}
variable (ha : Arrangement arrange Settled)
include ha

theorem readString (s : String) : Json.readString (arrange (.string s)) = .ok s := by
  rw [ha.string, Json.readString]

theorem readBool (b : Bool) : Json.readBool (arrange (.bool b)) = .ok b := by
  rw [ha.bool, Json.readBool]

theorem readUnsigned {bits n : Nat} (h : n < Nat.pow 2 bits) :
    Json.readUnsigned bits (arrange (.ofNat n)) = .ok n := by
  rw [ofNat, ha.number]
  exact readUnsigned_ofNat h

theorem readList {read : Reading α} {write : α → Json} {as : List α}
    (h : ∀ a ∈ as, read (arrange (write a)) = .ok a) :
    Json.readList read (arrange (.array (as.map write))) = .ok as := by
  rw [ha.array, Json.readList]
  induction as with
  | nil => rfl
  | cons a rest ih =>
    obtain ⟨hfirst, hrest⟩ := List.forall_mem_cons.mp h
    rw [List.map_cons, List.map_cons, List.mapM_cons, hfirst, ih hrest]
    rfl

theorem readNullable_null (read : Reading α) :
    Json.readNullable read (arrange .null) = .ok none := by
  rw [ha.null, Json.readNullable]

/-- What is written as it was given is read back. -/
theorem read_kept {read : Reading α} {write : α → Json} {v : Json} {a : α} (hv : Settled v)
    (hr : read v = .ok a) (hw : write a = v) : read (arrange (write a)) = .ok a := by
  rwa [hw, ha.settled hv]

/-- A value or null, where the value is not written as null. -/
theorem readNullable {read : Reading α} {write : α → Json} {a? : Option α}
    (h : ∀ a ∈ a?, arrange (write a) ≠ .null ∧ read (arrange (write a)) = .ok a) :
    Json.readNullable read (arrange (a?.elim .null write)) = .ok a? := by
  cases a? with
  | none => exact ha.readNullable_null read
  | some a =>
    obtain ⟨hn, hr⟩ := h a rfl
    rw [Option.elim, readNullable_of_ne_null hn, hr]
    rfl

/-- A value or null is read back if the value is. -/
theorem ensures_readNullable {read : Reading α} {write : α → Json}
    (h : Ensures Settled read fun a =>
      arrange (write a) ≠ .null ∧ read (arrange (write a)) = .ok a) :
    Ensures Settled (Json.readNullable read) fun a? =>
      Json.readNullable read (arrange (a?.elim .null write)) = .ok a? := by
  intro v a? hv hr
  exact ha.readNullable (Json.ensures_readNullable h v a? hv hr)

theorem readNullable_ofText? (text : Option String) :
    Json.readNullable Json.readString (arrange (.ofText? text)) = .ok text := by
  cases text with
  | none => exact ha.readNullable_null Json.readString
  | some s =>
    rw [ofText?, ha.string]
    rfl

theorem object_ne_null {members : Members} (hk : (members.map Prod.fst).Nodup) :
    arrange (.object members) ≠ .null := by
  obtain ⟨arranged, he, -⟩ := ha.object hk
  rw [he]
  exact Json.noConfusion

/-- **The members of an object** are read by what is found under its keys. -/
theorem exists_readMembers {schema : Schema α} {members : Members} {a : α}
    (hk : (members.map Prod.fst).Nodup)
    (h : schema.Reads (fun key => (members.find? key).map arrange) a) :
    ∃ arranged : Members, arrange (.object members) = .object arranged ∧
      schema.readMembers (arranged.find? ·) = .ok a := by
  obtain ⟨arranged, he, hf⟩ := ha.object hk
  refine ⟨arranged, he, Schema.readMembers_eq_ok_iff.mpr ?_⟩
  rwa [funext hf]

theorem read_object {schema : Schema α} {members : Members} {a : α} (name : String)
    (hk : (members.map Prod.fst).Nodup)
    (h : schema.Reads (fun key => (members.find? key).map arrange) a) :
    schema.read name (arrange (.object members)) = .ok a := by
  obtain ⟨arranged, he, hr⟩ := ha.exists_readMembers hk h
  rw [he]
  exact hr

end Arrangement

end TestTree.Json
