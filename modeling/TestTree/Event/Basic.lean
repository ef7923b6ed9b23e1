/-! # Events

The steps in which a test tree is built. A suite is started before and finished after all that is
below it; a test is started and then finishes or fails, or it is ignored. -/

namespace TestTree

/-- A step in building the test tree. Each names the suite or the test that it is about. -/
inductive Event where
  | suiteStarted (name location : String)
  | suiteFinished (name : String)
  | testStarted (name : String) (location : Option String)
  | testFinished (name : String) (milliseconds : UInt64)
  /-- Of a comparison the actual and the expected value are known. An error is a problem of the
  compiler and not a failed expectation. -/
  | testFailed (name message : String) (actual expected : Option String) (isError : Bool)
  | testIgnored (name comment : String)
  deriving DecidableEq, Repr

namespace Event

/-- The suite or test of an event. -/
def name : Event → String
  | suiteStarted name _ | suiteFinished name | testStarted name _ | testFinished name _
  | testFailed name _ _ _ _ | testIgnored name _ => name

/-- The place of a suite or test that is started. -/
def location? : Event → Option String
  | suiteStarted _ location => some location
  | testStarted _ location => location
  | _ => none

/-- The event is about a suite. -/
def isSuite : Event → Bool
  | suiteStarted _ _ | suiteFinished _ => true
  | _ => false

end Event

end TestTree
