import TestTree.Json.Number

/-! # JSON texts

The text of a value, without any white space (`compact`) or with one item or member a line and two
spaces of indent for each level (`pretty`). The two differ in their `Style` alone. In strings only
the quote, the backslash and the characters below U+0020 are escaped. -/

namespace TestTree.Json

/-! ### Strings -/

/-- A hexadecimal digit in lower case. -/
def hexDigit (n : Nat) : Char :=
  if n < 10 then Char.ofNat ('0'.toNat + n) else Char.ofNat ('a'.toNat + (n - 10))

/-- A character as it stands in a string literal. -/
def escapeChar (c : Char) : List Char :=
  if c = '"' || c = '\\' then ['\\', c]
  else if c = '\x08' then ['\\', 'b']
  else if c = '\x0c' then ['\\', 'f']
  else if c = '\n' then ['\\', 'n']
  else if c = '\r' then ['\\', 'r']
  else if c = '\t' then ['\\', 't']
  else if c.toNat < 0x20 then
    ['\\', 'u', '0', '0', hexDigit (c.toNat / 16), hexDigit (c.toNat % 16)]
  else [c]

/-- A string literal. -/
def writeString (s : String) : List Char := '"' :: (s.toList.flatMap escapeChar ++ ['"'])

/-! ### Values -/

/-- The white space of a text. -/
structure Style where
  /-- What stands before an item, a member or a closing bracket, for each level. -/
  lineBreak : Nat → List Char
  /-- What stands between a key with its colon and the value. -/
  afterColon : List Char

/-- No white space. -/
def Style.compact : Style := ⟨fun _ => [], []⟩

/-- A line for each item, two spaces for each level. -/
def Style.pretty : Style := ⟨fun level => '\n' :: List.replicate (2 * level) ' ', [' ']⟩

mutual

/-- The text of a value that stands at a level. -/
def write (style : Style) (level : Nat) : Json → List Char
  | .null => ['n', 'u', 'l', 'l']
  | .bool true => ['t', 'r', 'u', 'e']
  | .bool false => ['f', 'a', 'l', 's', 'e']
  | .number n => n.write
  | .string s => writeString s
  | .array [] => ['[', ']']
  | .array (item :: items) =>
    '[' :: (style.lineBreak (level + 1) ++ (write style (level + 1) item ++
      (writeItems style (level + 1) items ++ (style.lineBreak level ++ [']']))))
  | .object [] => ['\x7b', '\x7d']
  | .object ((key, value) :: members) =>
    '\x7b' :: (style.lineBreak (level + 1) ++ (writeString key ++ ':' :: (style.afterColon ++
      (write style (level + 1) value ++ (writeMembers style (level + 1) members ++
        (style.lineBreak level ++ ['\x7d']))))))

/-- The texts of the items that follow another one. -/
def writeItems (style : Style) (level : Nat) : List Json → List Char
  | [] => []
  | item :: items =>
    ',' :: (style.lineBreak level ++ (write style level item ++ writeItems style level items))

/-- The texts of the members that follow another one. -/
def writeMembers (style : Style) (level : Nat) : List (String × Json) → List Char
  | [] => []
  | (key, value) :: members =>
    ',' :: (style.lineBreak level ++ (writeString key ++ ':' :: (style.afterColon ++
      (write style level value ++ writeMembers style level members))))

end

/-- The text of a value without white space. -/
def compact (v : Json) : String := String.ofList (write .compact 0 v)

/-- The text of a value over several lines. -/
def pretty (v : Json) : String := String.ofList (write .pretty 0 v)

end TestTree.Json
