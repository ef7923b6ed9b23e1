import TestTree.Decimal.Layout
import TestTree.Decimal.Literal.ToFloat
import TestTree.Json.Basic

/-! # Numbers of JSON texts

A literal without fraction and exponent is an integer if its value fits 64 bits: from 0 to
`2 ^ 64 - 1` without a sign, and from `-2 ^ 63` to `-1` with one. Every other literal is a double,
`-0` included. -/

namespace TestTree.Json.Number

/-- The number of a literal; none if it is too large for a double. -/
def ofLiteral? (l : Decimal.Literal) : Option Number :=
  let n := Decimal.ofDigits l.whole
  let isInteger := l.fraction.isEmpty && l.exponent.isNone
  if isInteger && !l.negative && n < Nat.pow 2 64 then some (.integer n)
  else if isInteger && l.negative && 0 < n && n ≤ Nat.pow 2 63 then some (.integer (-(n : Int)))
  else l.toFloat?.map .float

/-- The number that a text is a literal of. -/
def read? (text : List Char) : Option Number := (Decimal.Literal.read text).bind ofLiteral?

/-- Doubles are written positionally from `0.00001` up to and without `1e+16`. -/
def layout : Decimal.Layout := ⟨-5, 16⟩

/-- The text of a number. -/
def write : Number → List Char
  | .integer n => (if n < 0 then ['-'] else []) ++ Nat.toDigits 10 n.natAbs
  | .float x => layout.writeFloat x

end TestTree.Json.Number
