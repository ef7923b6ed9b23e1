import TestTree.Decimal.Shortest

/-! # Laying out decimals

A decimal is written positionally while the exponent of its first digit lies in a given range, and
with an exponent otherwise. -/

namespace TestTree.Decimal

/-- How decimals are written: the exponents of the first digit, from `low` up to and without `high`,
for which notation is positional. Positional notation has at least one digit after the point; an
exponent is always signed. -/
structure Layout where
  low : Int
  high : Int

/-- Digits with a point after the first `point` of them, filled up with zeros. -/
def positional (digits : List Char) (point : Int) : List Char :=
  if point ≤ 0 then ['0', '.'] ++ List.replicate (-point).toNat '0' ++ digits
  else if point < digits.length then
    digits.take point.toNat ++ ['.'] ++ digits.drop point.toNat
  else digits ++ List.replicate (point.toNat - digits.length) '0' ++ ['.', '0']

/-- Digits with a point after the first of them, if there are more, and an exponent. -/
def scientific (digits : List Char) (exponent : Int) : List Char :=
  let mantissa := match digits with
    | first :: more@(_ :: _) => first :: '.' :: more
    | digits => digits
  mantissa ++ ['e', if exponent < 0 then '-' else '+'] ++ Nat.toDigits 10 exponent.natAbs

/-- The text of a positive decimal whose coefficient does not end in zero. -/
def Layout.write (layout : Layout) (d : Scaled) : List Char :=
  let digits := Nat.toDigits 10 d.coefficient
  let point := d.exponent + digits.length
  if layout.low ≤ point - 1 ∧ point - 1 < layout.high then positional digits point
  else scientific digits (point - 1)

/-- The text of a finite double: its shortest decimal. -/
def Layout.writeFloat (layout : Layout) (x : Float) : List Char :=
  let (negative, magnitude) := Binary.ofFloat x
  (if negative then ['-'] else []) ++
    match magnitude with
    | none => ['0', '.', '0']
    | some b => layout.write b.shortest

end TestTree.Decimal
