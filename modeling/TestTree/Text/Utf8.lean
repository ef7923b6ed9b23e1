/-! # UTF-8

Characters as octets and back. Reading never fails as such: `pieces` cuts any octets into characters
and faulty parts, where a faulty part is the longest start of a character that the next octet does
not continue, or one octet that starts nothing. Strict reading (`read`) stops at the first faulty
part and says where it is; lenient reading (`decode`) puts U+FFFD in the place of each. -/

namespace TestTree.Text.Utf8

/-! ### Writing -/

/-- The octets of a character, one to four. -/
def encodeChar (c : Char) : List UInt8 :=
  let n := c.toNat
  if n < 0x80 then [n.toUInt8]
  else if n < 0x800 then [(0xC0 + n / 64).toUInt8, (0x80 + n % 64).toUInt8]
  else if n < 0x10000 then
    [(0xE0 + n / 4096).toUInt8, (0x80 + n / 64 % 64).toUInt8, (0x80 + n % 64).toUInt8]
  else
    [(0xF0 + n / 262144).toUInt8, (0x80 + n / 4096 % 64).toUInt8, (0x80 + n / 64 % 64).toUInt8,
      (0x80 + n % 64).toUInt8]

/-- The octets of a text. -/
def encode (text : List Char) : List UInt8 := text.flatMap encodeChar

@[simp] theorem encode_nil : encode [] = [] := rfl

@[simp] theorem encode_cons (c : Char) (text : List Char) :
    encode (c :: text) = encodeChar c ++ encode text := rfl

@[simp] theorem encode_append (s t : List Char) : encode (s ++ t) = encode s ++ encode t :=
  List.flatMap_append

/-! ### Cutting into pieces -/

/-- An inclusive range of octets. -/
structure Range where
  low : Nat
  high : Nat

/-- The octets that continue a character, as a rule. -/
def Range.tail : Range := ⟨0x80, 0xBF⟩

/-- Membership of an octet in a range. -/
def Range.contains (r : Range) (b : UInt8) : Bool := r.low ≤ b.toNat && b.toNat ≤ r.high

/-- A character begun and not ended: its value and its octets so far, and the ranges of the octets
that it still needs, of which there is at least one. -/
structure Pending where
  value : Nat
  length : Nat
  next : Range
  later : List Range

/-- A part of an octet sequence. -/
inductive Piece where
  /-- A character in full. -/
  | char (c : Char)
  /-- The start of a character which the octet after it does not continue, or a lone octet. -/
  | broken (length : Nat)
  /-- The start of a character at the very end. -/
  | truncated (length : Nat)
  deriving DecidableEq, Repr

/-- What an octet between two characters gives: a piece, or the start of a longer character.
Overlong forms, surrogates and values above U+10FFFF are excluded by the range of the second octet.
-/
def first (b : UInt8) : List Piece × Option Pending :=
  let n := b.toNat
  let start (value : Nat) (next : Range) (later : List Range) : List Piece × Option Pending :=
    ([], some ⟨value, 1, next, later⟩)
  if n < 0x80 then ([.char (Char.ofNat n)], none)
  else if n < 0xC2 then ([.broken 1], none)
  else if n < 0xE0 then start (n % 32) .tail []
  else if n = 0xE0 then start 0 ⟨0xA0, 0xBF⟩ [.tail]
  else if n = 0xED then start 13 ⟨0x80, 0x9F⟩ [.tail]
  else if n < 0xF0 then start (n % 16) .tail [.tail]
  else if n = 0xF0 then start 0 ⟨0x90, 0xBF⟩ [.tail, .tail]
  else if n < 0xF4 then start (n % 8) .tail [.tail, .tail]
  else if n = 0xF4 then start 4 ⟨0x80, 0x8F⟩ [.tail, .tail]
  else ([.broken 1], none)

/-- One octet more: the pieces that it ends, and the character that it leaves open. -/
def step : Option Pending → UInt8 → List Piece × Option Pending
  | none, b => first b
  | some p, b =>
    if p.next.contains b then
      let value := p.value * 64 + b.toNat % 64
      match p.later with
      | [] => ([.char (Char.ofNat value)], none)
      | next :: later => ([], some ⟨value, p.length + 1, next, later⟩)
    else
      let (ended, pending) := first b
      (.broken p.length :: ended, pending)

/-- The pieces of octets that follow an open character, after those in `done`, the last one first.
-/
def piecesFrom (done : List Piece) : Option Pending → List UInt8 → List Piece
  | none, [] => done.reverse
  | some p, [] => (.truncated p.length :: done).reverse
  | pending, b :: rest =>
    piecesFrom ((step pending b).1.reverse ++ done) (step pending b).2 rest

/-- The pieces of an octet sequence. -/
def pieces (octets : List UInt8) : List Piece := piecesFrom [] none octets

theorem piecesFrom_eq_append (done : List Piece) (pending : Option Pending) (octets : List UInt8) :
    piecesFrom done pending octets = done.reverse ++ piecesFrom [] pending octets := by
  induction octets generalizing done pending with
  | nil => cases pending <;> simp [piecesFrom]
  | cons b rest ih =>
    simp only [piecesFrom]
    rw [ih, ih ((step pending b).1.reverse ++ [])]
    simp

/-! ### Lenient reading -/

/-- The character that stands for a piece: U+FFFD for a faulty one. -/
def Piece.toChar : Piece → Char
  | .char c => c
  | .broken _ | .truncated _ => '\uFFFD'

/-- The text of an octet sequence, with one U+FFFD for each faulty part. -/
def decode (octets : List UInt8) : List Char := (pieces octets).map Piece.toChar

/-! ### Strict reading -/

/-- The first faulty part of an octet sequence: its index, and its length unless it is cut off by
the end. -/
structure Fault where
  index : Nat
  length? : Option Nat
  deriving DecidableEq, Repr

/-- The wording of a fault. -/
def Fault.message (fault : Fault) : String :=
  match fault.length? with
  | some n => s!"invalid utf-8 sequence of {n} bytes from index {fault.index}"
  | none => s!"incomplete utf-8 byte sequence from index {fault.index}"

/-- The first faulty part among pieces that start at an index. -/
def firstFault? (index : Nat) : List Piece → Option Fault
  | [] => none
  | .char c :: rest => firstFault? (index + (encodeChar c).length) rest
  | .broken n :: _ => some ⟨index, some n⟩
  | .truncated _ :: _ => some ⟨index, none⟩

/-- The text of an octet sequence that is UTF-8 throughout. -/
def read (octets : List UInt8) : Except Fault (List Char) :=
  match firstFault? 0 (pieces octets) with
  | none => .ok (decode octets)
  | some fault => .error fault

end TestTree.Text.Utf8
