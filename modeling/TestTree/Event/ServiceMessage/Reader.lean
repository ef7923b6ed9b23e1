import TestTree.Event.ServiceMessage

/-! # Reading service messages

What a test console makes of a service message: after `##teamcity[` a kind, then attributes, each a
space, a key, an equals sign and a value in single quotes, and `]` at the end. Within a value a
vertical bar escapes the next character, and the first quote that is not escaped ends it. The reader
takes one character at a time. -/

namespace TestTree.ServiceMessage

/-- The character that a letter after a vertical bar stands for. -/
def unescapeLetter? (letter : Char) : Option Char :=
  if letter = '|' || letter = '\'' || letter = '[' || letter = ']' then some letter
  else if letter = 'n' then some '\n'
  else if letter = 'r' then some '\r'
  else if letter = 'x' then some '\u0085'
  else if letter = 'l' then some '\u2028'
  else if letter = 'p' then some '\u2029'
  else none

/-- Where the reader is. What has been read of a kind, key or value stands in reverse. -/
inductive Place where
  | kind (read : List Char)
  /-- After a value. -/
  | between
  | key (read : List Char)
  /-- After the equals sign. -/
  | quote (key : String)
  | value (key : String) (read : List Char)
  /-- After a vertical bar. -/
  | escape (key : String) (read : List Char)
  /-- After the end. -/
  | closed

/-- The message so far, with the last attribute first, and where the reader is. -/
structure Reader where
  kind : String
  attributes : List (String × String)
  place : Place

/-- A character where an attribute or the end may come. -/
def Reader.stepBetween (r : Reader) (c : Char) : Option Reader :=
  if c = ' ' then some { r with place := .key [] }
  else if c = ']' then some { r with place := .closed }
  else none

/-- One character. -/
def Reader.step (r : Reader) (c : Char) : Option Reader :=
  match r.place with
  | .kind read =>
    if c = ' ' || c = ']' then { r with kind := String.ofList read.reverse }.stepBetween c
    else some { r with place := .kind (c :: read) }
  | .between => r.stepBetween c
  | .key read =>
    if c = '=' then some { r with place := .quote (String.ofList read.reverse) }
    else some { r with place := .key (c :: read) }
  | .quote key => if c = '\'' then some { r with place := .value key [] } else none
  | .value key read =>
    if c = '\'' then
      some { r with
        attributes := (key, String.ofList read.reverse) :: r.attributes
        place := .between }
    else if c = '|' then some { r with place := .escape key read }
    else some { r with place := .value key (c :: read) }
  | .escape key read =>
    (unescapeLetter? c).map fun e => { r with place := .value key (e :: read) }
  | .closed => none

/-- The reader after more characters. -/
def Reader.feed (r : Reader) : List Char → Option Reader
  | [] => some r
  | c :: rest =>
    match r.step c with
    | some r => r.feed rest
    | none => none

/-- The message, if it has come to its end. -/
def Reader.finish (r : Reader) : Option ServiceMessage :=
  match r.place with
  | .closed => some ⟨r.kind, r.attributes.reverse⟩
  | _ => none

/-- The message that a text is. -/
def read? (text : String) : Option ServiceMessage :=
  if opening.isPrefixOf text.toList then
    (Reader.feed ⟨"", [], .kind []⟩ (text.toList.drop opening.length)).bind Reader.finish
  else none

end TestTree.ServiceMessage
