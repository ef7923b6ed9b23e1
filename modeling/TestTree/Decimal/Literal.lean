import TestTree.Text.Numeral

/-! # Decimal literals

The grammar of numbers with an optional fraction and an optional exponent: a minus sign or none, `0`
or digits that do not start with `0`, then a point with at least one digit, then `e` or `E` with an
optional sign and at least one digit. -/

namespace TestTree.Decimal

/-- The parts of a literal; digits are given by their values, from left to right. -/
structure Literal where
  negative : Bool
  whole : List Nat
  fraction : List Nat
  /-- Whether the exponent is negative, and its digits. -/
  exponent : Option (Bool × List Nat)
  deriving DecidableEq, Repr

/-- The value of digits. -/
def ofDigits (digits : List Nat) : Nat := digits.foldl (fun n d => n * 10 + d) 0

/-- The digits at the start of a text, and what follows them. -/
def takeDigits : List Char → List Nat × List Char
  | [] => ([], [])
  | c :: rest =>
    match Text.Numeral.digit? c with
    | some d => let (digits, rest) := takeDigits rest; (d :: digits, rest)
    | none => ([], c :: rest)

/-- The sign at the start of an exponent, and what follows it. -/
def takeSign : List Char → Bool × List Char
  | '-' :: rest => (true, rest)
  | '+' :: rest => (false, rest)
  | rest => (false, rest)

namespace Literal

/-- The rest of a literal after its whole part and fraction. -/
def readExponent : List Char → Option (Option (Bool × List Nat))
  | [] => some none
  | c :: rest =>
    if c = 'e' || c = 'E' then
      let (negative, rest) := takeSign rest
      match takeDigits rest with
      | (d :: digits, []) => some (some (negative, d :: digits))
      | _ => none
    else none

/-- The rest of a literal after its whole part: the fraction and the exponent. -/
def readFraction : List Char → Option (List Nat × Option (Bool × List Nat))
  | '.' :: rest =>
    match takeDigits rest with
    | (d :: digits, rest) => (readExponent rest).map (d :: digits, ·)
    | ([], _) => none
  | rest => (readExponent rest).map ([], ·)

/-- The digits of a whole part: `0` alone, or digits that do not start with it. -/
def isWhole : List Nat → Bool
  | [] => false
  | 0 :: more => more.isEmpty
  | _ => true

/-- A literal that takes up a whole text. -/
def read (text : List Char) : Option Literal :=
  let (negative, text) := match text with
    | '-' :: rest => (true, rest)
    | rest => (false, rest)
  let (whole, rest) := takeDigits text
  if isWhole whole then
    (readFraction rest).map fun (fraction, exponent) => ⟨negative, whole, fraction, exponent⟩
  else none

end Literal

end TestTree.Decimal
