import TestTree.Text.Visible

/-! # Quoted texts

A text between double quotes, so that it can be read in a message: a quote and a backslash stand
after a backslash, four control characters have an escape of their own, and each other character
that cannot be shown is written with its code, as in `\u{feff}`. -/

namespace TestTree.Text.Quoted

/-- The escape of a character by its code, in lower-case hexadecimal. -/
def escapeCode (c : Char) : List Char :=
  ['\\', 'u', '\x7b'] ++ Nat.toDigits 16 c.toNat ++ ['\x7d']

/-- A character as it stands between the quotes. -/
def encodeChar (c : Char) : List Char :=
  if c = '\x00' then ['\\', '0']
  else if c = '\t' then ['\\', 't']
  else if c = '\r' then ['\\', 'r']
  else if c = '\n' then ['\\', 'n']
  else if c = '"' || c = '\\' then ['\\', c]
  else if isVisible c then [c]
  else escapeCode c

/-- A text in quotes. -/
def encode (text : String) : String :=
  String.ofList ('"' :: (text.toList.flatMap encodeChar ++ ['"']))

end TestTree.Text.Quoted
