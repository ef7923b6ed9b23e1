import TestTree.Decimal.Literal

/-! # Doubles from literals

A literal is read into a double in two steps. The digits are gathered into a coefficient of 64 bits:
digits of the whole part that no longer fit only count for the exponent, and digits of the fraction
that no longer fit are left out. The coefficient is rounded to a double, which is then multiplied or
divided by a power of ten, and rounded once more by that. So the result is not always the double
nearest to the literal; it is the same on every machine. -/

namespace TestTree.Decimal

/-- The largest coefficient. -/
def maxCoefficient : Nat := Nat.pow 2 64 - 1

/-- The largest number that the digits of an exponent may form. -/
def maxExponent : Nat := Nat.pow 2 31 - 1

/-- A coefficient with the digits of a whole part, and the number of digits that did not fit. -/
def gatherWhole (coefficient : Nat) : List Nat → Nat × Nat
  | [] => (coefficient, 0)
  | d :: digits =>
    if coefficient * 10 + d ≤ maxCoefficient then gatherWhole (coefficient * 10 + d) digits
    else (coefficient, digits.length + 1)

/-- A coefficient with the digits of a fraction, and the number of digits that fitted. -/
def gatherFraction (coefficient : Nat) : List Nat → Nat × Nat
  | [] => (coefficient, 0)
  | d :: digits =>
    if coefficient * 10 + d ≤ maxCoefficient then
      let (c, n) := gatherFraction (coefficient * 10 + d) digits
      (c, n + 1)
    else (coefficient, 0)

/-- A power of ten, as the nearest double. -/
def powerOfTen (k : Nat) : Float := Float.ofScientific 1 false k

/-- The double for `coefficient · 10 ^ exponent`; none if it is too large. -/
def scale? (coefficient : Nat) (exponent : Int) : Option Float :=
  let x := Float.ofNat coefficient
  if coefficient = 0 then some 0
  else if 308 < exponent then none
  else if 0 ≤ exponent then
    let y := x * powerOfTen exponent.toNat
    if y.isInf then none else some y
  else if -308 ≤ exponent then some (x / powerOfTen (-exponent).toNat)
  else if -616 ≤ exponent then
    some (x / powerOfTen 308 / powerOfTen (-exponent - 308).toNat)
  else some 0

/-- The magnitude of a literal as a double; none if it is too large. -/
def Literal.magnitude? (l : Literal) : Option Float :=
  let (whole, dropped) := gatherWhole 0 l.whole
  let (coefficient, taken) := gatherFraction whole l.fraction
  let shift : Int := dropped - taken
  match l.exponent with
  | none => scale? coefficient shift
  | some (negative, digits) =>
    let n := ofDigits digits
    if n ≤ maxExponent then scale? coefficient (if negative then shift - n else shift + n)
    else if negative || coefficient = 0 then some 0
    else none

/-- The double that a literal is read as; none if it is too large. -/
def Literal.toFloat? (l : Literal) : Option Float :=
  l.magnitude?.map fun x => if l.negative then -x else x

end TestTree.Decimal
