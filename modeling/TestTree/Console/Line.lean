import TestTree.Text.Split

/-! # Lines of console output

A byte stream is cut after each line feed; what follows the last one is a line too, unless it is
empty. The content of a line is all of it less a line feed at its end and a carriage return before
that. -/

namespace TestTree.Console

/-- The line feed. -/
def lineFeed : UInt8 := 0x0A

/-- The carriage return. -/
def carriageReturn : UInt8 := 0x0D

/-- A line, without its line feed, and whether it has one. -/
structure Line where
  bytes : List UInt8
  terminated : Bool
  deriving DecidableEq, Repr

/-- Bytes less one at their end, if they end with it. -/
def dropLast? (b : UInt8) (bytes : List UInt8) : List UInt8 :=
  if bytes.getLast? = some b then bytes.dropLast else bytes

/-- The content of a line. A carriage return at the end is left out also if no line feed follows. -/
def Line.content (line : Line) : List UInt8 := dropLast? carriageReturn line.bytes

/-- The lines of a field before a line feed and of those after each. -/
def linesOf (first : List UInt8) : List (List UInt8) → List Line
  | [] => if first.isEmpty then [] else [⟨first, false⟩]
  | next :: later => ⟨first, true⟩ :: linesOf next later

/-- The lines of a byte stream. -/
def lines (bytes : List UInt8) : List Line :=
  let (first, later) := Text.fields lineFeed bytes
  linesOf first later

/-- The bytes of a line. -/
def Line.toBytes (line : Line) : List UInt8 :=
  if line.terminated then line.bytes ++ [lineFeed] else line.bytes

/-- Bytes that end where a line does. -/
def AtLineEnd (bytes : List UInt8) : Prop := bytes = [] ∨ bytes.getLast? = some lineFeed

instance : DecidablePred AtLineEnd := fun bytes =>
  inferInstanceAs (Decidable (bytes = [] ∨ bytes.getLast? = some lineFeed))

/-- Nothing is lost when a stream is cut into lines. -/
theorem flatMap_toBytes_lines (bytes : List UInt8) :
    (lines bytes).flatMap Line.toBytes = bytes := by
  have key (first : List UInt8) (later : List (List UInt8)) :
      (linesOf first later).flatMap Line.toBytes = Text.join lineFeed first later := by
    induction later generalizing first with
    | nil => cases first <;> simp [linesOf, Text.join, Line.toBytes]
    | cons next later ih => simp [linesOf, Line.toBytes, ih, Text.join]
  rw [lines, key, Text.join_fields]

end TestTree.Console
