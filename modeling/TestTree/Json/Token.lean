import TestTree.Json.Number

/-! # Tokens of JSON texts

A text is scanned one character at a time by a machine whose state is a `Mode`. Numbers and words
are taken as the longest runs of their characters and looked at when the run ends; strings are
decoded as they are read. A text that has a faulty token somewhere has no tokens at all. -/

namespace TestTree.Json

/-- A lexical unit. -/
inductive Token where
  | openArray
  | closeArray
  | openObject
  | closeObject
  | comma
  | colon
  | null
  | bool (b : Bool)
  | number (n : Number)
  | string (s : String)

/-- How far an escape in a string has been read. -/
inductive Escape where
  /-- The backslash. -/
  | begun
  /-- `\u` and some digits: how many are to come, and the value of those read. -/
  | unit (missing : Nat) (value : Nat)
  /-- The first half of a surrogate pair. -/
  | half (high : Nat)
  /-- The first half and the backslash of the second. -/
  | halfBegun (high : Nat)
  /-- The first half, and `\u` and some digits of the second. -/
  | halfUnit (high : Nat) (missing : Nat) (value : Nat)
  deriving DecidableEq

/-- Where the scanner is. What has been read of a token stands in reverse. -/
inductive Mode where
  | between
  | word (read : List Char)
  | number (read : List Char)
  | string (read : List Char)
  | escape (read : List Char) (progress : Escape)

/-! ### Characters -/

/-- White space of a JSON text. -/
def isSpace (c : Char) : Bool := c = ' ' || c = '\t' || c = '\n' || c = '\r'

/-- A character of a number. -/
def isNumeric (c : Char) : Bool :=
  ('0' ≤ c && c ≤ '9') || c = '+' || c = '-' || c = '.' || c = 'e' || c = 'E'

/-- A character with which a number may start. -/
def startsNumber (c : Char) : Bool := ('0' ≤ c && c ≤ '9') || c = '-'

/-- A character of a word. -/
def isLetter (c : Char) : Bool := 'a' ≤ c && c ≤ 'z'

/-- The value of a hexadecimal digit of either case. -/
def hexValue? (c : Char) : Option Nat :=
  if '0' ≤ c ∧ c ≤ '9' then some (c.toNat - '0'.toNat)
  else if 'a' ≤ c ∧ c ≤ 'f' then some (c.toNat - 'a'.toNat + 10)
  else if 'A' ≤ c ∧ c ≤ 'F' then some (c.toNat - 'A'.toNat + 10)
  else none

/-- The character for the letter of a short escape. -/
def shortEscape? (c : Char) : Option Char :=
  if c = '"' || c = '\\' || c = '/' then some c
  else if c = 'b' then some '\x08'
  else if c = 'f' then some '\x0c'
  else if c = 'n' then some '\n'
  else if c = 'r' then some '\r'
  else if c = 't' then some '\t'
  else none

/-- The token of a character that is one by itself. -/
def mark? (c : Char) : Option Token :=
  if c = '[' then some .openArray
  else if c = ']' then some .closeArray
  else if c = '\x7b' then some .openObject
  else if c = '\x7d' then some .closeObject
  else if c = ',' then some .comma
  else if c = ':' then some .colon
  else none

/-- The token of a word. -/
def word? (word : List Char) : Option Token :=
  if word = ['n', 'u', 'l', 'l'] then some .null
  else if word = ['t', 'r', 'u', 'e'] then some (.bool true)
  else if word = ['f', 'a', 'l', 's', 'e'] then some (.bool false)
  else none

/-! ### Steps -/

/-- A character between two tokens: the tokens that it completes, and the mode after it. -/
def stepBetween (c : Char) : Option (List Token × Mode) :=
  if isSpace c then some ([], .between)
  else if c = '"' then some ([], .string [])
  else if startsNumber c then some ([], .number [c])
  else if isLetter c then some ([], .word [c])
  else (mark? c).map fun token => ([token], .between)

/-- A UTF-16 unit that a string names: half of a pair, or a character. -/
def stepUnit (read : List Char) (unit : Nat) : Option Mode :=
  if 0xD800 ≤ unit ∧ unit < 0xDC00 then some (.escape read (.half unit))
  else if 0xDC00 ≤ unit ∧ unit < 0xE000 then none
  else some (.string (Char.ofNat unit :: read))

/-- The second half of a surrogate pair. -/
def stepPair (read : List Char) (high low : Nat) : Option Mode :=
  if 0xDC00 ≤ low ∧ low < 0xE000 then
    some (.string (Char.ofNat (0x10000 + (high - 0xD800) * 0x400 + (low - 0xDC00)) :: read))
  else none

/-- A character of an escape. -/
def stepEscape (read : List Char) : Escape → Char → Option Mode
  | .begun, c =>
    if c = 'u' then some (.escape read (.unit 4 0))
    else (shortEscape? c).map fun e => .string (e :: read)
  | .unit missing value, c => do
    let value := value * 16 + (← hexValue? c)
    if missing = 1 then stepUnit read value
    else return .escape read (.unit (missing - 1) value)
  | .half high, c => if c = '\\' then some (.escape read (.halfBegun high)) else none
  | .halfBegun high, c => if c = 'u' then some (.escape read (.halfUnit high 4 0)) else none
  | .halfUnit high missing value, c => do
    let value := value * 16 + (← hexValue? c)
    if missing = 1 then stepPair read high value
    else return .escape read (.halfUnit high (missing - 1) value)

/-- The tokens that end with the token of a run, followed by a character that is not part of it. -/
def stepAfter (token : Option Token) (c : Char) : Option (List Token × Mode) := do
  let token ← token
  let (tokens, mode) ← stepBetween c
  return (token :: tokens, mode)

/-- One character: the tokens that it completes, and the mode after it. -/
def Mode.step : Mode → Char → Option (List Token × Mode)
  | .between, c => stepBetween c
  | .word read, c =>
    if isLetter c then some ([], .word (c :: read)) else stepAfter (word? read.reverse) c
  | .number read, c =>
    if isNumeric c then some ([], .number (c :: read))
    else stepAfter ((Number.read? read.reverse).map .number) c
  | .string read, c =>
    if c = '"' then some ([.string (String.ofList read.reverse)], .between)
    else if c = '\\' then some ([], .escape read .begun)
    else if c.toNat < 0x20 then none
    else some ([], .string (c :: read))
  | .escape read progress, c => (stepEscape read progress c).map fun mode => ([], mode)

/-- The end of the text: the token that it completes, if any. -/
def Mode.finish : Mode → Option (List Token)
  | .between => some []
  | .word read => (word? read.reverse).map fun token => [token]
  | .number read => (Number.read? read.reverse).map fun n => [.number n]
  | .string _ | .escape _ _ => none

end TestTree.Json
