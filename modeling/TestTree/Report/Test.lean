import TestTree.Json.Schema
import TestTree.Text.Blank

/-! # Completed tests

The record `testCompleted` gives the outcome of one test with all labels that lead to it. -/

namespace TestTree.Report

/-- The outcome of a test. -/
inductive Status where
  | pass
  | fail
  | todo
  deriving DecidableEq, Repr

/-- A completed test. -/
structure TestCompleted where
  status : Status
  /-- The module, the blocks within it and the title. -/
  labels : List String
  /-- What failed, as it was given; for a todo the reason. -/
  failures : List Json
  /-- The milliseconds it took. -/
  duration : UInt64

/-! ### The outcome -/

/-- The name of an outcome. -/
def Status.name : Status → String
  | .pass => "pass"
  | .fail => "fail"
  | .todo => "todo"

/-- The outcome with a name. -/
def Status.ofName (name : String) : Except Json.Mismatch Status :=
  if name = "pass" then .ok .pass
  else if name = "fail" then .ok .fail
  else if name = "todo" then .ok .todo
  else .error (.unknown name ["pass", "fail", "todo"])

/-- Nothing: null or an object without members. -/
def readNothing : Json.Reading Unit
  | .null | .object [] => .ok ()
  | v => .error (.kind v .nothing)

/-- An outcome is its name, or an object whose one key is its name and whose value is nothing. -/
def Status.read : Json.Reading Status
  | .string name => ofName name
  | .object [(name, value)] => do
    let status ← ofName name
    readNothing value
    return status
  | .object _ => .error .manyMembers
  | v => .error (.kind v .stringOrObject)

/-! ### The duration -/

/-- A duration is an integer, or a text that has a numeral between white space. -/
def readDuration : Json.Reading UInt64
  | .number (.integer n) =>
    if 0 ≤ n ∧ n < Nat.pow 2 64 then .ok (UInt64.ofNat n.toNat)
    else .error (.noAlternative "Millis")
  | .string s =>
    match Text.Numeral.read (Nat.pow 2 64 - 1) (Text.trim s.toList) with
    | .ok n => .ok (UInt64.ofNat n)
    | .error fault => .error (.numeral fault)
  | _ => .error (.noAlternative "Millis")

/-! ### The record -/

open Json (Schema)

/-- The members of the record `testCompleted`. -/
def TestCompleted.schema : Schema TestCompleted :=
  TestCompleted.mk <$> .required "status" Status.read
    <*> .required "labels" (Json.readList Json.readString)
    <*> .defaulted "failures" (Json.readList Json.readAny) []
    <*> .defaulted "duration" readDuration 0

/-- The members of the record `testCompleted`, in order. -/
def TestCompleted.toMembers (t : TestCompleted) : Json.Members :=
  [("status", .string t.status.name), ("labels", .array (t.labels.map .string)),
    ("failures", .array t.failures), ("duration", .ofNat t.duration.toNat)]

end TestTree.Report
