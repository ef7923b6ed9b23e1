import TestTree.Json.Printer
import TestTree.Text.Numeral
import TestTree.Text.Quoted

/-! # Mismatches

Why a JSON value is not what was wanted of it, and the wording of that. -/

namespace TestTree.Json

/-- What a value was wanted to be. -/
inductive Wanted where
  | string
  | boolean
  | unsigned (bits : Nat)
  | sequence
  | nothing
  | stringOrObject
  | tag
  | record (name : String)
  | taggedRecord (name : String)
  deriving DecidableEq, Repr

/-- The phrase for what was wanted. -/
def Wanted.phrase : Wanted → String
  | .string => "a string"
  | .boolean => "a boolean"
  | .unsigned bits => s!"u{bits}"
  | .sequence => "a sequence"
  | .nothing => "unit"
  | .stringOrObject => "string or map"
  | .tag => "variant identifier"
  | .record name => s!"struct {name}"
  | .taggedRecord name => s!"internally tagged enum {name}"

/-- The phrase for a value that was found instead. -/
def describe : Json → String
  | .null => "null"
  | .bool b => if b then "boolean `true`" else "boolean `false`"
  | .number (.integer n) => "integer `" ++ String.ofList (Number.write (.integer n)) ++ "`"
  | .number (.float x) => "floating point `" ++ String.ofList (Number.write (.float x)) ++ "`"
  | .string s => "string " ++ Text.Quoted.encode s
  | .array _ => "sequence"
  | .object _ => "map"

/-- Why a value is not what was wanted. -/
inductive Mismatch where
  /-- A member that a record needs is absent. -/
  | missing (member : String)
  /-- A name is none of those known. -/
  | unknown (name : String) (known : List String)
  /-- A value is of the wrong kind. -/
  | kind (found : Json) (wanted : Wanted)
  /-- An integer does not fit a number of bits without a sign. -/
  | range (found : Int) (bits : Nat)
  /-- An object that stands for a name has more or less than one member. -/
  | manyMembers
  /-- A sequence ends before the element at an index of a record. -/
  | tooShort (index : Nat) (record : String) (size : Nat)
  /-- A sequence has more elements than the record. -/
  | tooLong (found : Nat) (size : Nat)
  /-- A value is none of the alternatives of a type. -/
  | noAlternative (type : String)
  /-- A string that stands for a number is no numeral. -/
  | numeral (fault : Text.Numeral.Fault)

/-- How a sequence that is too long for its record is reported: with the number of elements that
were wanted, as is done within a tagged record, or without it. -/
inductive Surplus where
  | counted
  | uncounted
  deriving DecidableEq, Repr

/-- A number of elements in words. -/
def countElements (n : Nat) : String := if n = 1 then "1 element" else s!"{n} elements"

/-- The wording of a mismatch. -/
def Mismatch.message (surplus : Surplus) : Mismatch → String
  | .missing member => "missing field `" ++ member ++ "`"
  | .unknown name known =>
    "unknown variant `" ++ name ++ "`, expected one of `" ++ String.intercalate "`, `" known ++ "`"
  | .kind found wanted => s!"invalid type: {found.describe}, expected {wanted.phrase}"
  | .range found bits =>
    let wanted := Wanted.unsigned bits
    let found := Json.number (.integer found)
    s!"invalid value: {found.describe}, expected {wanted.phrase}"
  | .manyMembers => "invalid value: map, expected map with a single key"
  | .tooShort index record size =>
    s!"invalid length {index}, expected {record} with {countElements size}"
  | .tooLong found size =>
    match surplus with
    | .counted => s!"invalid length {found}, expected {countElements size} in sequence"
    | .uncounted => s!"invalid length {found}, expected fewer elements in array"
  | .noAlternative type => s!"data did not match any variant of untagged enum {type}"
  | .numeral fault => fault.message

end TestTree.Json
