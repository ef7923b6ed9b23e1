import TestTree.Json.Token

/-! # Values of JSON texts

The tokens of a text are read one at a time by a machine with a stack of the arrays and objects that
are open. A completed value is put into the innermost open one, so that the machine on the tokens of
a value and then some more is the machine on the others with that value in hand. At most `maxDepth`
arrays and objects may be open at once.

A `Reader` is the scanner together with this machine: each character is given to the scanner, and
the tokens that it completes to the machine. `Reader.feed_append`: a text may be fed in parts. -/

namespace TestTree.Json

/-- The number of levels that a text may have. -/
def maxDepth : Nat := 127

/-- An open array or object that waits for a value. -/
inductive Frame where
  /-- The items so far, the last one first. -/
  | array (items : List Json)
  /-- The members so far, and the key of the value. -/
  | object (members : Members) (key : String)

/-- What may come next, with the frames around it, the innermost first. -/
inductive Awaiting where
  /-- A value. -/
  | value (frames : List Frame)
  /-- The first item of an array or its end. -/
  | item (frames : List Frame)
  /-- The first key of an object or its end. -/
  | member (frames : List Frame)
  /-- A key. -/
  | key (members : Members) (frames : List Frame)
  /-- The colon after a key. -/
  | colon (members : Members) (key : String) (frames : List Frame)
  /-- A comma or an end after a value. -/
  | next (done : Json) (frames : List Frame)

/-- The value of a token that is one by itself. -/
def Token.toValue? : Token → Option Json
  | .null => some .null
  | .bool b => some (.bool b)
  | .number n => some (.number n)
  | .string s => some (.string s)
  | _ => none

/-- A token where a value is awaited. -/
def stepValue (frames : List Frame) (token : Token) : Option Awaiting :=
  match token with
  | .openArray => if frames.length < maxDepth then some (.item frames) else none
  | .openObject => if frames.length < maxDepth then some (.member frames) else none
  | token => token.toValue?.map fun v => .next v frames

/-- One token. -/
def Awaiting.step : Awaiting → Token → Option Awaiting
  | .value frames, token => stepValue frames token
  | .item frames, .closeArray => some (.next (.array []) frames)
  | .item frames, token => stepValue (.array [] :: frames) token
  | .member frames, .closeObject => some (.next (.object []) frames)
  | .member frames, .string k => some (.colon [] k frames)
  | .key members frames, .string k => some (.colon members k frames)
  | .colon members k frames, .colon => some (.value (.object members k :: frames))
  | .next v (.array items :: frames), .comma => some (.value (.array (v :: items) :: frames))
  | .next v (.array items :: frames), .closeArray =>
    some (.next (.array (v :: items).reverse) frames)
  | .next v (.object members k :: frames), .comma => some (.key (members.insert k v) frames)
  | .next v (.object members k :: frames), .closeObject =>
    some (.next (.object (members.insert k v)) frames)
  | _, _ => none

/-- What is awaited after tokens. -/
def Awaiting.run (awaiting : Awaiting) : List Token → Option Awaiting
  | [] => some awaiting
  | token :: rest => do (← awaiting.step token).run rest

/-- The value that is complete, if none is open around it. -/
def Awaiting.value? : Awaiting → Option Json
  | .next v [] => some v
  | _ => none

/-! ### Texts -/

/-- Where the reader of a text is: within the tokens, and within the value. -/
structure Reader where
  mode : Mode
  awaiting : Awaiting

/-- The start of a text. -/
def Reader.start : Reader := ⟨.between, .value []⟩

/-- One character. -/
def Reader.step (reader : Reader) (c : Char) : Option Reader := do
  let (tokens, mode) ← reader.mode.step c
  return ⟨mode, ← reader.awaiting.run tokens⟩

/-- The reader after more characters. -/
def Reader.feed (reader : Reader) : List Char → Option Reader
  | [] => some reader
  | c :: rest =>
    match reader.step c with
    | some reader => reader.feed rest
    | none => none

/-- The end of the text: the value, if it is complete. -/
def Reader.finish (reader : Reader) : Option Json := do
  (← reader.awaiting.run (← reader.mode.finish)).value?

/-- The value of a text. -/
def parse? (text : List Char) : Option Json := do
  (← Reader.start.feed text).finish

theorem Reader.feed_append (reader : Reader) (s t : List Char) :
    reader.feed (s ++ t) = (reader.feed s).bind (·.feed t) := by
  induction s generalizing reader with
  | nil => rfl
  | cons c rest ih =>
    simp only [List.cons_append, feed]
    cases reader.step c with
    | none => rfl
    | some r => exact ih r

end TestTree.Json
