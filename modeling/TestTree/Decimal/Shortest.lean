/-! # Shortest decimals

A positive binary number `m · 2 ^ q` of limited precision stands for every real that rounds to it:
an interval around it whose ends belong to it when `m` is even. `shortest` finds the decimal
`c · 10 ^ k` in that interval with the largest `k`, which is the one with the fewest digits; of two
such decimals it takes the nearer one, and of two that are equally near the one with even `c`. -/

namespace TestTree.Decimal

/-- The positive number `mantissa · 2 ^ exponent`, and whether the next smaller number of its
precision is only half as far away as the next larger one. -/
structure Binary where
  mantissa : Nat
  exponent : Int
  narrowBelow : Bool
  deriving DecidableEq, Repr

/-- The number `coefficient · 10 ^ exponent`. -/
structure Scaled where
  coefficient : Nat
  exponent : Int
  deriving DecidableEq, Repr

/-- A number, and the ends of the interval of reals that round to it, in multiples of one unit. -/
structure Interval where
  low : Nat
  value : Nat
  high : Nat
  unit : Nat
  closed : Bool

/-- The interval of a number, measured in units of `10 ^ k`. -/
def Binary.interval (b : Binary) (k : Int) : Interval :=
  let q := b.exponent - 2
  let scale := Nat.pow 2 q.toNat * Nat.pow 10 (-k).toNat
  { low := (4 * b.mantissa - if b.narrowBelow then 1 else 2) * scale
    value := 4 * b.mantissa * scale
    high := (4 * b.mantissa + 2) * scale
    unit := Nat.pow 2 (-q).toNat * Nat.pow 10 k.toNat
    closed := b.mantissa % 2 = 0 }

/-- The multiple `c` of the unit lies in the interval. -/
def Interval.contains (i : Interval) (c : Nat) : Bool :=
  if i.closed then i.low ≤ c * i.unit && c * i.unit ≤ i.high
  else i.low < c * i.unit && c * i.unit < i.high

/-- The multiple of the unit in the interval that is nearest to the number, an even one if two are
equally near. Only the two neighbours of the number need a look. -/
def Interval.nearest? (i : Interval) : Option Nat :=
  let c := i.value / i.unit
  let below := i.value - c * i.unit
  let above := (c + 1) * i.unit - i.value
  match i.contains c, i.contains (c + 1) with
  | true, true => some (if below < above || below = above && c % 2 = 0 then c else c + 1)
  | true, false => some c
  | false, true => some (c + 1)
  | false, false => none

/-- An exponent of ten that exceeds a number: 0.30103 is slightly more than the logarithm of two. -/
def Binary.topExponent (b : Binary) : Int :=
  (b.mantissa.log2 + 1 + b.exponent) * 30103 / 100000 + 1

/-- The first hit on the grids of `10 ^ k`, `10 ^ (k - 1)` and so on. -/
def Binary.searchFrom (b : Binary) (k : Int) : Nat → Scaled
  | 0 => ⟨(b.interval k).value / (b.interval k).unit, k⟩
  | grids + 1 =>
    match (b.interval k).nearest? with
    | some c => ⟨c, k⟩
    | none => b.searchFrom (k - 1) grids

/-- The decimal with the fewest digits that rounds to a number. Seventeen digits always suffice, and
the search starts at most three grids too high. -/
def Binary.shortest (b : Binary) : Scaled := b.searchFrom b.topExponent 21

/-- The parts of a double: its sign, and its magnitude unless that is zero. The double is taken to
be finite. -/
def Binary.ofFloat (x : Float) : Bool × Option Binary :=
  let bits := x.toBits.toNat
  let negative := bits / Nat.pow 2 63 = 1
  let exponent : Nat := bits / Nat.pow 2 52 % Nat.pow 2 11
  let fraction := bits % Nat.pow 2 52
  if exponent = 0 then
    (negative, if fraction = 0 then none else some ⟨fraction, -1074, false⟩)
  else
    (negative,
      some ⟨Nat.pow 2 52 + fraction, (exponent : Int) - 1075, fraction = 0 && 1 < exponent⟩)

end TestTree.Decimal
