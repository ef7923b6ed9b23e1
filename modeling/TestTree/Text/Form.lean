import TestTree.Text.Split
import TestTree.Text.Utf8

/-! # Form encoding

The encoding `application/x-www-form-urlencoded` of HTML forms. `encode` writes a text with ASCII
letters, digits and `*-._` as they are, a space as `+` and each other octet as `%` and two
upper-case hexadecimal digits. `parse` reads the fields of a form: they are separated by `&`, the
first `=` of each ends its name, and `+` and escapes are undone in names and values. -/

namespace TestTree.Text.Form

/-! ### Writing -/

/-- The digit of a value below sixteen, in upper case. -/
def hexDigit (n : Nat) : Char :=
  if n < 10 then Char.ofNat ('0'.toNat + n) else Char.ofNat ('A'.toNat + (n - 10))

/-- The octets that are written as themselves: ASCII letters and digits and `*-._`. -/
def isUnreserved (b : UInt8) : Bool :=
  let n := b.toNat
  (0x30 ≤ n && n ≤ 0x39) || (0x41 ≤ n && n ≤ 0x5A) || (0x61 ≤ n && n ≤ 0x7A)
    || n = 0x2A || n = 0x2D || n = 0x2E || n = 0x5F

/-- The form of an octet. -/
def encodeOctet (b : UInt8) : List Char :=
  if isUnreserved b then [Char.ofNat b.toNat]
  else if b = 0x20 then ['+']
  else ['%', hexDigit (b.toNat / 16), hexDigit (b.toNat % 16)]

/-- The form of a text. -/
def encode (text : List Char) : List Char := (Utf8.encode text).flatMap encodeOctet

@[simp] theorem encode_nil : encode [] = [] := rfl

@[simp] theorem encode_append (s t : List Char) : encode (s ++ t) = encode s ++ encode t := by
  simp [encode]

/-! ### Reading -/

/-- The value of a hexadecimal digit of either case. -/
def hexValue? (b : UInt8) : Option Nat :=
  let n := b.toNat
  if 0x30 ≤ n ∧ n ≤ 0x39 then some (n - 0x30)
  else if 0x41 ≤ n ∧ n ≤ 0x46 then some (n - 0x41 + 10)
  else if 0x61 ≤ n ∧ n ≤ 0x66 then some (n - 0x61 + 10)
  else none

/-- The octet that an escape stands for: a percent sign and two hexadecimal digits. -/
def escape? (percent high low : UInt8) : Option UInt8 :=
  match hexValue? high, hexValue? low with
  | some h, some l => if percent = 0x25 then some (16 * h + l).toUInt8 else none
  | _, _ => none

/-- Octets with each escape undone; a percent sign that no two digits follow stays. -/
def unescape : List UInt8 → List UInt8
  | a :: b :: c :: rest =>
    match escape? a b c with
    | some octet => octet :: unescape rest
    | none => a :: unescape (b :: c :: rest)
  | octets => octets

/-- The text of a name or a value: each plus sign is a space, then escapes are undone, and what is
not UTF-8 becomes U+FFFD. -/
def decodePart (octets : List UInt8) : List Char :=
  Utf8.decode (unescape (octets.map fun b => if b = 0x2B then 0x20 else b))

/-- The name and the value of a field; without an equals sign all of it is the name. -/
def parseField (octets : List UInt8) : List Char × List Char :=
  match cutFirst [0x3D] octets with
  | some (name, value) => (decodePart name, decodePart value)
  | none => (decodePart octets, [])

/-- The fields of a form, less those that are empty. -/
def parse (octets : List UInt8) : List (List Char × List Char) :=
  let (first, later) := fields 0x26 octets
  ((first :: later).filter (!·.isEmpty)).map parseField

end TestTree.Text.Form
