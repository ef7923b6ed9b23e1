import TestTree.Event.Basic
import TestTree.Json.Schema

/-! # Events as JSON

An event is written as an object whose first member names its kind. It is read from such an object,
with the members in any order, or from a sequence of the kind and the values. -/

namespace TestTree.Event

/-! ### Writing -/

/-- An event as JSON. -/
def toJson : Event → Json
  | suiteStarted name location =>
    .object [("event", .string "suiteStarted"), ("name", .string name),
      ("location", .string location)]
  | suiteFinished name => .object [("event", .string "suiteFinished"), ("name", .string name)]
  | testStarted name location =>
    .object [("event", .string "testStarted"), ("name", .string name),
      ("location", .ofText? location)]
  | testFinished name milliseconds =>
    .object [("event", .string "testFinished"), ("name", .string name),
      ("duration_ms", .ofNat milliseconds.toNat)]
  | testFailed name message actual expected isError =>
    .object [("event", .string "testFailed"), ("name", .string name), ("message", .string message),
      ("actual", .ofText? actual), ("expected", .ofText? expected), ("error", .bool isError)]
  | testIgnored name comment =>
    .object [("event", .string "testIgnored"), ("name", .string name), ("comment", .string comment)]

/-! ### Reading -/

/-- A kind of event: how it is named in mismatches, and its members. -/
structure Kind where
  title : String
  schema : Json.Schema Event

/-- The names of the kinds of events. -/
def kindNames : List String :=
  ["suiteStarted", "suiteFinished", "testStarted", "testFinished", "testFailed", "testIgnored"]

open Json (Schema readString readBool readUnsigned)

/-- A duration in milliseconds. -/
def readMilliseconds : Json.Reading UInt64 := fun v => (readUnsigned 64 v).map UInt64.ofNat

/-- The kind with a name. -/
def kind? (name : String) : Option Kind :=
  let nameMember : Schema String := .required "name" readString
  if name = "suiteStarted" then
    some ⟨"SuiteStarted", suiteStarted <$> nameMember <*> .required "location" readString⟩
  else if name = "suiteFinished" then some ⟨"SuiteFinished", suiteFinished <$> nameMember⟩
  else if name = "testStarted" then
    some ⟨"TestStarted", testStarted <$> nameMember <*> .optional "location" readString⟩
  else if name = "testFinished" then
    some ⟨"TestFinished", testFinished <$> nameMember <*> .required "duration_ms" readMilliseconds⟩
  else if name = "testFailed" then
    some ⟨"TestFailed", testFailed <$> nameMember <*> .required "message" readString
      <*> .optional "actual" readString <*> .optional "expected" readString
      <*> .required "error" readBool⟩
  else if name = "testIgnored" then
    some ⟨"TestIgnored", testIgnored <$> nameMember <*> .required "comment" readString⟩
  else none

/-- The kind that a tag names. -/
def readKind : Json.Reading Kind
  | .string name =>
    match kind? name with
    | some kind => .ok kind
    | none => .error (.unknown name kindNames)
  | v => .error (.kind v .tag)

/-- An event, as an object or a sequence. -/
def read : Json.Reading Event
  | .object members =>
    match Json.Members.find? "event" members with
    | some tag => do (← readKind tag).schema.readMembers (Json.Members.find? · members)
    | none => .error (.missing "event")
  | .array (tag :: values) => do
    let kind ← readKind tag
    kind.schema.readItems ("struct variant LifecycleEvent::" ++ kind.title) values
  | .array [] => .error (.missing "event")
  | v => .error (.kind v (.taggedRecord "LifecycleEvent"))

end TestTree.Event
