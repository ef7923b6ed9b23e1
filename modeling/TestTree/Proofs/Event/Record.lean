import TestTree.Event.Record
import TestTree.Proofs.Json.Compact
import TestTree.Proofs.Json.Members
import TestTree.Proofs.Json.Schema

/-! # Reading back events

`read_toJson`: an event is read back from its object. What an object is read as depends only on what
is found in it under each key (`read_object_congr`), so it does not matter that the members come
back in order, and an event is read back from its text as well (`readText?_compact`). That text has
no control character (`notMem_compact`). -/

namespace TestTree.Event

open Json (readNullable_ofText? readUnsigned_ofNat)

/-! ### Single values -/

theorem readMilliseconds_ofNat (milliseconds : UInt64) :
    readMilliseconds (.ofNat milliseconds.toNat) = .ok milliseconds := by
  rw [readMilliseconds, readUnsigned_ofNat milliseconds.toNat_lt]
  exact congrArg Except.ok (UInt64.ofNat_toNat)

/-! ### Objects -/

variable {members : Json.Members}

/-- **An object with a tag** is read by the schema of its kind. -/
theorem read_object {tag : String} {kind : Kind} {e : Event}
    (ht : Json.Members.find? "event" members = some (.string tag)) (hk : kind? tag = some kind)
    (hr : kind.schema.Reads (Json.Members.find? · members) e) : read (.object members) = .ok e := by
  have hkind : readKind (.string tag) = .ok kind := by
    rw [readKind, hk]
  simp only [read, ht, hkind]
  exact Json.Schema.readMembers_eq_ok_iff.mpr hr

theorem read_object_congr {other : Json.Members}
    (h : ∀ key, members.find? key = other.find? key) :
    read (.object members) = read (.object other) := by
  simp only [read, h]

/-- **An event is read back** from its object. -/
theorem read_toJson (e : Event) : read e.toJson = .ok e := by
  cases e with
  | suiteStarted name location =>
    refine read_object rfl rfl (.seq (.map ?name) ?location)
    case name => exact .member rfl rfl
    case location => exact .member rfl rfl
  | suiteFinished name =>
    refine read_object rfl rfl (.map ?name)
    case name => exact .member rfl rfl
  | testStarted name location =>
    refine read_object rfl rfl (.seq (.map ?name) ?location)
    case name => exact .member rfl rfl
    case location => exact .member rfl (readNullable_ofText? location)
  | testFinished name milliseconds =>
    refine read_object rfl rfl (.seq (.map ?name) ?milliseconds)
    case name => exact .member rfl rfl
    case milliseconds => exact .member rfl (readMilliseconds_ofNat milliseconds)
  | testFailed name message actual expected isError =>
    refine read_object rfl rfl
      (.seq (.seq (.seq (.seq (.map ?name) ?message) ?actual) ?expected) ?isError)
    case name => exact .member rfl rfl
    case message => exact .member rfl rfl
    case actual => exact .member rfl (readNullable_ofText? actual)
    case expected => exact .member rfl (readNullable_ofText? expected)
    case isError => exact .member rfl rfl
  | testIgnored name comment =>
    refine read_object rfl rfl (.seq (.map ?name) ?comment)
    case name => exact .member rfl rfl
    case comment => exact .member rfl rfl

/-! ### Texts -/

/-- The event that a text is, if it is one. -/
def readText? (text : List Char) : Option Event :=
  (Json.parse? text).bind fun v => (read v).toOption

theorem readable_ofText? (n : Nat) (text : Option String) : Json.Readable n (.ofText? text) := by
  cases text with
  | none => exact .null n
  | some s => exact .string n s

theorem normalize_ofText? (text : Option String) :
    Json.normalize (.ofText? text) = .ofText? text := by
  cases text <;> rfl

theorem readable_milliseconds (n : Nat) (milliseconds : UInt64) :
    Json.Readable n (.ofNat milliseconds.toNat) := by
  have hh : (milliseconds.toNat : Int) < Nat.pow 2 64 := Int.ofNat_lt.mpr milliseconds.toNat_lt
  exact .number n (Json.Number.isReadable_integer (by omega) hh)

theorem readable_toJson (n : Nat) (e : Event) : Json.Readable (n + 1) e.toJson := by
  cases e <;> refine .object ?_ <;>
    simp [Json.Readable.string, Json.Readable.bool, readable_ofText?, readable_milliseconds]

/-- The members of an event come back in order and else as they are. -/
theorem normalize_toJson (e : Event) :
    ∃ members : Json.Members, e.toJson = .object members ∧ (members.map Prod.fst).Nodup ∧
      Json.normalize e.toJson = .object members.sorted := by
  cases e <;> refine ⟨_, rfl, by simp, ?_⟩ <;>
    simp [toJson, Json.normalize, Json.normalizeMembers, normalize_ofText?, Json.ofNat]

theorem read_normalize_toJson (e : Event) : read (Json.normalize e.toJson) = .ok e := by
  obtain ⟨members, he, hk, hn⟩ := normalize_toJson e
  rw [hn, read_object_congr (Json.Members.find?_sorted hk), ← he, read_toJson]

/-- **An event is read back** from its text. -/
theorem readText?_compact (e : Event) : readText? e.toJson.compact.toList = some e := by
  rw [readText?, Json.parse?_compact (readable_toJson _ e), Option.bind_some,
    read_normalize_toJson]
  rfl

/-- **The text of an event** has no control character, so it is one line. -/
theorem notMem_compact (e : Event) {c : Char} (hc : c.toNat < 0x20) :
    c ∉ e.toJson.compact.toList :=
  Json.notMem_compact (readable_toJson 0 e) hc

end TestTree.Event
