import TestTree.Json.Mismatch

/-! # Reading values and records

A reader takes a value to what it stands for or to a mismatch. A `Schema` describes a record by its
members, in order, and is built with `pure` and `<*>` from single members (`required`, `optional`,
`defaulted`). The one description serves both forms of a record: an object, where members may come
in any order and others are ignored, and a sequence of all values in the order of the schema.

An object with several faults is reported by one of them: of the members that do not read, the one
with the least key; only if all of them read, the first one in the order of the schema that is
missing. -/

namespace TestTree.Json

/-- A way to read values. -/
abbrev Reading (α : Type) := Json → Except Mismatch α

/-! ### Single values -/

/-- A string. -/
def readString : Reading String
  | .string s => .ok s
  | v => .error (.kind v .string)

/-- A boolean. -/
def readBool : Reading Bool
  | .bool b => .ok b
  | v => .error (.kind v .boolean)

/-- An integer from zero up to and without `2 ^ bits`. -/
def readUnsigned (bits : Nat) : Reading Nat
  | .number (.integer n) =>
    if 0 ≤ n ∧ n < Nat.pow 2 bits then .ok n.toNat else .error (.range n bits)
  | v => .error (.kind v (.unsigned bits))

/-- A list of values, each read in the same way; the first that does not read counts. -/
def readList {α : Type} (read : Reading α) : Reading (List α)
  | .array items => items.mapM read
  | v => .error (.kind v .sequence)

/-- A value or null. -/
def readNullable {α : Type} (read : Reading α) : Reading (Option α)
  | .null => .ok none
  | v => (read v).map some

/-- Any value, as it is. -/
def readAny : Reading Json := .ok

/-! ### Records -/

/-- Why a sequence is not a record: it ends too early, or an element does not read. -/
inductive SequenceFault where
  | absent (index : Nat)
  | mismatch (m : Mismatch)

/-- How a record is read from its members. -/
structure Schema (α : Type) where
  /-- The number of members. -/
  size : Nat
  /-- The members that are present and do not read, with why. -/
  faults : (String → Option Json) → List (String × Mismatch)
  /-- The record, or else the first member in order that is missing or does not read. -/
  ofMembers : (String → Option Json) → Except Mismatch α
  /-- The record at the start of a sequence whose first element has an index, and what follows. -/
  ofItems : Nat → List Json → Except SequenceFault (α × List Json)

namespace Schema

/-- A member that has a name, a reading, a value if an object lacks it, and a value if a sequence
ends before it. -/
def member {α : Type} (name : String) (read : Reading α) (unnamed unplaced : Option α) :
    Schema α where
  size := 1
  faults find? :=
    match (find? name).map read with
    | some (.error m) => [(name, m)]
    | _ => []
  ofMembers find? :=
    match find? name, unnamed with
    | some v, _ => read v
    | none, some a => .ok a
    | none, none => .error (.missing name)
  ofItems index
    | v :: rest =>
      match read v with
      | .ok a => .ok (a, rest)
      | .error m => .error (.mismatch m)
    | [] =>
      match unplaced with
      | some a => .ok (a, [])
      | none => .error (.absent index)

/-- A member that must be there. -/
def required {α : Type} (name : String) (read : Reading α) : Schema α :=
  member name read none none

/-- A member that may be missing from an object, or be null. -/
def optional {α : Type} (name : String) (read : Reading α) : Schema (Option α) :=
  member name (readNullable read) (some none) none

/-- A member with a value that counts if it is missing. -/
def defaulted {α : Type} (name : String) (read : Reading α) (value : α) : Schema α :=
  member name read (some value) (some value)

/-- The record without members. -/
protected def pure {α : Type} (a : α) : Schema α where
  size := 0
  faults _ := []
  ofMembers _ := .ok a
  ofItems _ items := .ok (a, items)

/-- The members of two records, one after the other. -/
protected def seq {α β : Type} (f : Schema (α → β)) (x : Schema α) : Schema β where
  size := f.size + x.size
  faults find? := f.faults find? ++ x.faults find?
  ofMembers find? := do
    let g ← f.ofMembers find?
    return g (← x.ofMembers find?)
  ofItems index items := do
    let (g, items) ← f.ofItems index items
    let (a, rest) ← x.ofItems (index + f.size) items
    return (g a, rest)

instance : Applicative Schema where
  pure := Schema.pure
  seq f x := Schema.seq f (x ())

/-- The fault with the least key. -/
def leastFault? : List (String × Mismatch) → Option (String × Mismatch)
  | [] => none
  | (key, m) :: rest =>
    match leastFault? rest with
    | some (k, n) => if k < key then some (k, n) else some (key, m)
    | none => some (key, m)

/-- A record as the members of an object. -/
def readMembers {α : Type} (schema : Schema α) (find? : String → Option Json) :
    Except Mismatch α :=
  match leastFault? (schema.faults find?) with
  | some (_, m) => .error m
  | none => schema.ofMembers find?

/-- A record as a sequence; its name is for reports. -/
def readItems {α : Type} (name : String) (schema : Schema α) (items : List Json) :
    Except Mismatch α :=
  match schema.ofItems 0 items with
  | .ok (a, []) => .ok a
  | .ok (_, _ :: _) => .error (.tooLong items.length schema.size)
  | .error (.absent index) => .error (.tooShort index name schema.size)
  | .error (.mismatch m) => .error m

/-- A record as an object or a sequence. -/
def read {α : Type} (name : String) (schema : Schema α) : Reading α
  | .object members => schema.readMembers (Members.find? · members)
  | .array items => schema.readItems ("struct " ++ name) items
  | v => .error (.kind v (.record name))

end Schema

end TestTree.Json
