import TestTree.Event.Basic
import TestTree.Text.Numeral

/-! # Events as service messages

A service message is one line of text for a test console: a kind and attributes between
`##teamcity[` and `]`. The values of attributes stand in single quotes, and a vertical bar escapes
the characters that would end the value, the message or the line. -/

namespace TestTree

/-- A message for a test console. -/
structure ServiceMessage where
  kind : String
  attributes : List (String × String)
  deriving DecidableEq, Repr

namespace ServiceMessage

/-- The character that stands after a vertical bar for a character that has to be escaped. -/
def escapeLetter? (c : Char) : Option Char :=
  if c = '|' || c = '\'' || c = '[' || c = ']' then some c
  else if c = '\n' then some 'n'
  else if c = '\r' then some 'r'
  else if c = '\u0085' then some 'x'
  else if c = '\u2028' then some 'l'
  else if c = '\u2029' then some 'p'
  else none

/-- A character as it stands in a value. -/
def escapeChar (c : Char) : List Char :=
  match escapeLetter? c with
  | some letter => ['|', letter]
  | none => [c]

/-- A text as it stands between the quotes of a value. -/
def escape (value : String) : String := String.ofList (value.toList.flatMap escapeChar)

/-- The text of an attribute. -/
def writeAttribute : String × String → List Char
  | (key, value) =>
    ' ' :: (key.toList ++ '=' :: '\'' :: (value.toList.flatMap escapeChar ++ ['\'']))

/-- How a message starts. -/
def opening : List Char := "##teamcity[".toList

/-- The text of a message. -/
def write (m : ServiceMessage) : String :=
  String.ofList (opening ++ m.kind.toList ++ m.attributes.flatMap writeAttribute ++ [']'])

end ServiceMessage

namespace Event

/-- The attribute for the place of a test, if it is known. -/
def locationAttribute : Option String → List (String × String)
  | some location => [("locationHint", location)]
  | none => []

/-- The attributes for the values of a comparison; one of them alone is not shown. -/
def comparisonAttributes : Option String → Option String → List (String × String)
  | some actual, some expected =>
    [("type", "comparisonFailure"), ("actual", actual), ("expected", expected)]
  | _, _ => []

/-- The message for an event. -/
def toServiceMessage : Event → ServiceMessage
  | suiteStarted name location =>
    ⟨"testSuiteStarted", [("name", name), ("locationHint", location)]⟩
  | suiteFinished name => ⟨"testSuiteFinished", [("name", name)]⟩
  | testStarted name location => ⟨"testStarted", ("name", name) :: locationAttribute location⟩
  | testFinished name milliseconds =>
    ⟨"testFinished", [("name", name),
      ("duration", String.ofList (Text.Numeral.digits milliseconds.toNat))]⟩
  | testFailed name message actual expected isError =>
    ⟨"testFailed", [("name", name), ("message", message)] ++ comparisonAttributes actual expected
      ++ if isError then [("error", "true")] else []⟩
  | testIgnored name comment => ⟨"testIgnored", [("name", name), ("message", comment)]⟩

end Event

end TestTree
