import TestTree.Json.Schema

/-! # Failures

Why a test failed: a plain message, or a message with the input that was tried and a reason. A
reason may tell which values were compared. -/

namespace TestTree.Report

/-- The details of a reason. -/
inductive Details where
  /-- Two values that were compared, and the name of the expectation. -/
  | comparison (actual expected : Option Json) (expectation : Option String)
  /-- Anything else. -/
  | other (v : Json)

/-- The reason of a failure. -/
structure Reason where
  kind : String
  details : Details

/-- A failure with an explanation. -/
structure Explanation where
  /-- The input with which the test failed. -/
  given : Option Json
  message : String
  reason : Option Reason

/-- Why a test failed. -/
inductive Failure where
  | simple (message : String)
  | explained (failure : Explanation)

/-- The message of a failure. -/
def Failure.message : Failure → String
  | .simple message => message
  | .explained failure => failure.message

/-- A compared value as text: a string as it is, null as nothing, anything else as JSON. -/
def showValue? : Json → Option String
  | .null => none
  | .string s => some s
  | v => some v.pretty

/-- The actual and the expected value of a failure, as texts. -/
def Explanation.compared (failure : Explanation) : Option String × Option String :=
  match failure.reason with
  | some ⟨_, .comparison actual expected _⟩ => (actual.bind showValue?, expected.bind showValue?)
  | _ => (none, none)

/-! ### Reading -/

open Json (Schema Reading)

/-- The members of details that are a comparison. -/
def Details.schema : Schema Details :=
  Details.comparison <$> .optional "actual" Json.readAny <*> .optional "expected" Json.readAny
    <*> .optional "comparison" Json.readString

/-- Details are a comparison if they are an object that reads as one, and otherwise kept as given.
-/
def Details.read : Reading Details
  | .object members =>
    match Details.schema.readMembers (Json.Members.find? · members) with
    | .ok details => .ok details
    | .error _ => .ok (.other (.object members))
  | v => .ok (.other v)

/-- The members of a reason. -/
def Reason.schema : Schema Reason :=
  Reason.mk <$> .required "type" Json.readString <*> .required "data" Details.read

/-- The members of a failure with an explanation. -/
def Explanation.schema : Schema Explanation :=
  Explanation.mk <$> .optional "given" Json.readAny <*> .required "message" Json.readString
    <*> .optional "reason" (Reason.schema.read "FailureReason")

/-- A failure is a string or a record. -/
def Failure.read : Reading Failure
  | .string message => .ok (.simple message)
  | v =>
    match Explanation.schema.read "DetailedFailure" v with
    | .ok failure => .ok (.explained failure)
    | .error _ => .error (.noAlternative "Failure")

/-! ### Writing -/

/-- A value or null. -/
def ofAny? : Option Json → Json
  | some v => v
  | none => .null

/-- Details as JSON. -/
def Details.toJson : Details → Json
  | .comparison actual expected expectation =>
    .object [("actual", ofAny? actual), ("expected", ofAny? expected),
      ("comparison", .ofText? expectation)]
  | .other v => v

/-- A reason as JSON. -/
def Reason.toJson (r : Reason) : Json :=
  .object [("type", .string r.kind), ("data", r.details.toJson)]

/-- A failure as JSON. -/
def Failure.toJson : Failure → Json
  | .simple message => .string message
  | .explained failure =>
    .object [("given", ofAny? failure.given), ("message", .string failure.message),
      ("reason", ofAny? (failure.reason.map Reason.toJson))]

end TestTree.Report
