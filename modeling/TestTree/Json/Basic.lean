/-! # JSON values

A number keeps apart integers and doubles, since the two are written in different ways. The members
of an object are an association list; `insert` keeps the keys in increasing order, where the order
of keys is that of their UTF-8 octets, which is also the order by code points. Everything that reads
an object does so through `find?`. -/

namespace TestTree

/-- A number of a JSON text. -/
inductive Json.Number where
  | integer (n : Int)
  | float (x : Float)

/-- A JSON value. -/
inductive Json where
  | null
  | bool (b : Bool)
  | number (n : Json.Number)
  | string (s : String)
  | array (items : List Json)
  | object (members : List (String × Json))

namespace Json

/-- The members of an object. -/
abbrev Members := List (String × Json)

/-- The value of the first member with a key. -/
def Members.find? (key : String) : Members → Option Json
  | [] => none
  | (k, v) :: rest => if k = key then some v else find? key rest

/-- Members with the value of one key set; the keys stay in order if they were. -/
def Members.insert (key : String) (value : Json) : Members → Members
  | [] => [(key, value)]
  | (k, v) :: rest =>
    if key = k then (key, value) :: rest
    else if key < k then (key, value) :: (k, v) :: rest
    else (k, v) :: insert key value rest

/-- Members with their keys in order; of several members with one key the last counts. -/
def Members.sorted (members : Members) : Members :=
  members.foldl (fun sorted (k, v) => sorted.insert k v) []

/-- A text or nothing, where nothing is null. -/
def ofText? : Option String → Json
  | some s => .string s
  | none => .null

/-- A natural number. -/
def ofNat (n : Nat) : Json := .number (.integer n)

theorem Members.find?_insert (key k : String) (value : Json) (members : Members) :
    (members.insert key value).find? k = if key = k then some value else members.find? k := by
  induction members with
  | nil => rfl
  | cons m rest ih => grind [insert, find?]

end Json

end TestTree
