import TestTree.Path.Label
import TestTree.Text.Numeral

/-! # Location identifiers

A place in the tests or their sources is named by an identifier: a scheme, `://` and a rest. For
suites and tests the rest is an encoded path, whose first label is the module; for compiler errors
it is a file with a line and a column, each after `::`. Line and column are taken from the end, so a
file may contain `::` itself if both are there. -/

namespace TestTree

/-- A place that an identifier names. -/
inductive Location where
  /-- A suite: the file of its module, and the labels below the module. -/
  | suite (file : String) (labels : Path)
  /-- A test: the file of its module, and the labels below the module. -/
  | test (file : String) (labels : Path)
  /-- A position that the compiler reports. -/
  | error (file : String) (line column : UInt32)
  deriving DecidableEq

namespace Location

/-- An identifier, or the part of one after the scheme, that names no place. -/
structure Invalid where
  text : String
  deriving DecidableEq, Repr

/-- The wording of a failure. -/
def Invalid.message (invalid : Invalid) : String := s!"Invalid location: {invalid.text}"

/-! ### Writing -/

/-- The scheme of suites. -/
def suiteScheme : String := "elmTestDescribe"

/-- The scheme of tests. -/
def testScheme : String := "elmTestTest"

/-- The scheme of compiler errors. -/
def errorScheme : String := "elmTestError"

/-- The identifier of a suite. -/
def suiteIdentifier (p : Path) : String := suiteScheme ++ "://" ++ p.encode

/-- The identifier of a test. -/
def testIdentifier (p : Path) : String := testScheme ++ "://" ++ p.encode

/-- A number in decimal. -/
def number (n : UInt32) : String := String.ofList (Text.Numeral.digits n.toNat)

/-- The identifier of a position; the file stands in it as it is. -/
def errorIdentifier (file : String) (line column : UInt32) : String :=
  errorScheme ++ "://" ++ file ++ "::" ++ number line ++ "::" ++ number column

/-! ### Reading -/

/-- The file of a module: `A.B` is in `tests/A/B.elm`. -/
def moduleFile (name : String) : String :=
  "tests/" ++ String.ofList (name.toList.map fun c => if c = '.' then '/' else c) ++ ".elm"

/-- The file and the labels below the module that an encoded path names. -/
def readPath (text : String) : String × Path :=
  let (first, later) := Text.fields '/' text.toList
  let decode (form : List Char) : String := Label.decode (String.ofList form)
  (moduleFile (decode first), Path.ofLabels (later.map decode))

/-- A line or column. -/
def readNumber? (text : List Char) : Option UInt32 :=
  match Text.Numeral.read (Nat.pow 2 32 - 1) text with
  | .ok n => some (UInt32.ofNat n)
  | .error _ => none

/-- The file of a position with the texts of its line and column, as far as it has them. -/
def splitPosition (text : List Char) : List Char × Option (List Char) × Option (List Char) :=
  match Text.cutLast [':', ':'] text with
  | none => (text, none, none)
  | some (front, last) =>
    match Text.cutLast [':', ':'] front with
    | none => (front, some last, none)
    | some (file, line) => (file, some line, some last)

/-- The file, line and column of a position; a line or column that is left out is 1. -/
def readPosition (text : String) : Except Invalid (String × UInt32 × UInt32) :=
  let (file, line, column) := splitPosition text.toList
  let number? : Option (List Char) → Option UInt32
    | none => some 1
    | some digits => readNumber? digits
  match number? line, number? column with
  | some line, some column => .ok (String.ofList file, line, column)
  | _, _ => .error ⟨text⟩

/-- The place that an identifier names. If the scheme is missing or unknown, the whole identifier is
invalid, and otherwise only the part after the scheme. -/
def read (identifier : String) : Except Invalid Location :=
  match Text.cutFirst [':', '/', '/'] identifier.toList with
  | none => .error ⟨identifier⟩
  | some (scheme, rest) =>
    let rest := String.ofList rest
    if scheme = suiteScheme.toList then
      let (file, labels) := readPath rest
      .ok (.suite file labels)
    else if scheme = testScheme.toList then
      let (file, labels) := readPath rest
      .ok (.test file labels)
    else if scheme = errorScheme.toList then
      (readPosition rest).map fun (file, line, column) => .error file line column
    else .error ⟨identifier⟩

/-! ### Showing -/

/-- A place as it is shown: the file, and the labels or the position within it. -/
def display : Location → String
  | .suite file labels | .test file labels =>
    if labels.isRoot then file else s!"{file} > {labels.display}"
  | .error file line column => s!"{file}:{number line}:{number column}"

end Location

end TestTree
