import TestTree.Path.Basic
import TestTree.Text.Form

/-! # Labels in identifiers

A label is form-encoded, so that it can stand between slashes. A path is written as its encoded
labels with slashes between. To read a label is to read a form of one name: the characters that
separate names and values are escaped first, so that the form has no other field. -/

namespace TestTree

namespace Label

/-- The form of a label. -/
def encode (label : String) : String := String.ofList (Text.Form.encode label.toList)

/-- A character, with the separators of forms escaped. -/
def escapeSeparator (c : Char) : List Char :=
  if c = '&' then ['%', '2', '6'] else if c = '=' then ['%', '3', 'D'] else [c]

/-- The label with a form; an escape that is malformed stays as it is. -/
def decode (form : String) : String :=
  let fields := Text.Form.parse (Text.Utf8.encode (form.toList.flatMap escapeSeparator))
  String.ofList (fields.flatMap (·.1))

end Label

namespace Path

/-- The encoded labels of a path with slashes between. -/
def encode (p : Path) : String :=
  match p.labels.map fun label => (Label.encode label).toList with
  | [] => ""
  | first :: later => String.ofList (Text.join '/' first later)

end Path

end TestTree
