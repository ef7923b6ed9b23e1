/-! # Decimal numerals

A numeral is an optional plus sign and at least one ASCII digit. `read` takes a numeral whose value
is at most a bound; of several faults it names the leftmost one, where a value that passes the bound
counts at the digit with which it does. -/

namespace TestTree.Text.Numeral

/-- Why a text is not a numeral within the bound. -/
inductive Fault where
  | empty
  | invalidDigit
  | tooLarge
  deriving DecidableEq, Repr

/-- The wording of a fault. -/
def Fault.message : Fault → String
  | .empty => "cannot parse integer from empty string"
  | .invalidDigit => "invalid digit found in string"
  | .tooLarge => "number too large to fit in target type"

/-- The value of an ASCII digit. -/
def digit? (c : Char) : Option Nat :=
  if '0' ≤ c ∧ c ≤ '9' then some (c.toNat - '0'.toNat) else none

/-- The value of digits that follow those of `value`. -/
def readDigits (bound value : Nat) : List Char → Except Fault Nat
  | [] => .ok value
  | c :: rest =>
    match digit? c with
    | none => .error .invalidDigit
    | some d =>
      if value * 10 + d ≤ bound then readDigits bound (value * 10 + d) rest else .error .tooLarge

/-- The value of a numeral that is at most `bound`. -/
def read (bound : Nat) : List Char → Except Fault Nat
  | [] => .error .empty
  | ['+'] => .error .invalidDigit
  | '+' :: digits => readDigits bound 0 digits
  | digits => readDigits bound 0 digits

/-- The digits of a number. -/
def digits (n : Nat) : List Char := Nat.toDigits 10 n

end TestTree.Text.Numeral
