import TestTree.Json.Schema
import TestTree.Location

/-! # Compiler reports

If the tests do not compile, the compiler reports its problems instead of a run: those of the
modules one by one, or one problem that belongs to no module. For the test tree each problem is a
`Diagnostic`: a title, a message and a place, as far as there is one. -/

namespace TestTree.Report

/-- A line and a column, from 1. -/
structure Position where
  line : UInt32
  column : UInt32
  deriving DecidableEq, Repr

/-- A span of the source. -/
structure Region where
  start : Position
  stop : Position
  deriving DecidableEq, Repr

/-- A part of a compiler message. -/
inductive Chunk where
  | plain (text : String)
  | styled (text : String) (bold underline : Bool) (color : Option String)
  | other (v : Json)

/-- A problem within a module. -/
structure Problem where
  title : String
  region : Option Region
  message : Option (List Chunk)

/-- The problems of a module. -/
structure ModuleProblems where
  path : Option String
  name : Option String
  problems : List Problem

/-- A problem outside of all modules. -/
structure GeneralProblem where
  path : Option String
  title : String
  message : Option (List Chunk)

/-- What the compiler reports. -/
inductive CompileReport where
  | modules (errors : List ModuleProblems)
  | general (error : GeneralProblem)

/-! ### Reading -/

open Json (Schema Reading)

/-- A line or a column. -/
def readCoordinate : Reading UInt32 := fun v => (Json.readUnsigned 32 v).map UInt32.ofNat

/-- The members of a position. -/
def Position.schema : Schema Position :=
  Position.mk <$> .required "line" readCoordinate <*> .required "column" readCoordinate

/-- The members of a region. -/
def Region.schema : Schema Region :=
  Region.mk <$> .required "start" (Position.schema.read "Position")
    <*> .required "end" (Position.schema.read "Position")

/-- The members of a styled chunk. -/
def Chunk.schema : Schema Chunk :=
  Chunk.styled <$> .required "string" Json.readString <*> .defaulted "bold" Json.readBool false
    <*> .defaulted "underline" Json.readBool false <*> .optional "color" Json.readString

/-- A chunk is a string, or an object that reads as styled text, or else kept as given. -/
def Chunk.read : Reading Chunk
  | .string text => .ok (.plain text)
  | .object members =>
    match Chunk.schema.readMembers (Json.Members.find? · members) with
    | .ok chunk => .ok chunk
    | .error _ => .ok (.other (.object members))
  | v => .ok (.other v)

/-- A message of several chunks. -/
def readMessage : Reading (List Chunk) := Json.readList Chunk.read

/-- The members of a problem. -/
def Problem.schema : Schema Problem :=
  Problem.mk <$> .defaulted "title" Json.readString ""
    <*> .optional "region" (Region.schema.read "Region") <*> .optional "message" readMessage

/-- The members of the problems of a module. -/
def ModuleProblems.schema : Schema ModuleProblems :=
  ModuleProblems.mk <$> .optional "path" Json.readString <*> .optional "name" Json.readString
    <*> .defaulted "problems" (Json.readList (Problem.schema.read "Problem")) []

/-- The members of a report on modules. -/
def modulesSchema : Schema (List ModuleProblems) :=
  .required "errors" (Json.readList (ModuleProblems.schema.read "ModuleErrors"))

/-- The members of a problem outside of all modules. -/
def GeneralProblem.schema : Schema GeneralProblem :=
  GeneralProblem.mk <$> .optional "path" Json.readString <*> .defaulted "title" Json.readString ""
    <*> .optional "message" readMessage

/-! ### Writing -/

/-- A position as JSON. -/
def Position.toJson (p : Position) : Json :=
  .object [("line", .ofNat p.line.toNat), ("column", .ofNat p.column.toNat)]

/-- A region as JSON. -/
def Region.toJson (r : Region) : Json :=
  .object [("start", r.start.toJson), ("end", r.stop.toJson)]

/-- A region or null. -/
def ofRegion? : Option Region → Json
  | some r => r.toJson
  | none => .null

/-- A chunk as JSON. -/
def Chunk.toJson : Chunk → Json
  | .plain text => .string text
  | .styled text bold underline color =>
    .object [("string", .string text), ("bold", .bool bold), ("underline", .bool underline),
      ("color", .ofText? color)]
  | .other v => v

/-- A message or null. -/
def ofMessage? : Option (List Chunk) → Json
  | some chunks => .array (chunks.map Chunk.toJson)
  | none => .null

/-- A problem as JSON. -/
def Problem.toJson (p : Problem) : Json :=
  .object [("title", .string p.title), ("region", ofRegion? p.region),
    ("message", ofMessage? p.message)]

/-- The problems of a module as JSON. -/
def ModuleProblems.toJson (m : ModuleProblems) : Json :=
  .object [("path", .ofText? m.path), ("name", .ofText? m.name),
    ("problems", .array (m.problems.map Problem.toJson))]

/-- The members of a problem outside of all modules, in order. -/
def GeneralProblem.toMembers (e : GeneralProblem) : Json.Members :=
  [("path", .ofText? e.path), ("title", .string e.title), ("message", ofMessage? e.message)]

/-! ### Diagnostics -/

/-- A problem as the test tree shows it. -/
structure Diagnostic where
  title : String
  file : Option String
  region : Option Region
  message : String
  deriving DecidableEq

/-- The text of a chunk. -/
def Chunk.text : Chunk → String
  | .plain text | .styled text _ _ _ => text
  | .other _ => ""

/-- The text of a message; a problem without a message has this one. -/
def messageText : Option (List Chunk) → String
  | none => "UNKNOWN"
  | some chunks => String.join (chunks.map Chunk.text)

/-- The problem of a module as a diagnostic. -/
def Problem.toDiagnostic (file : Option String) (p : Problem) : Diagnostic :=
  ⟨p.title, file, p.region, messageText p.message⟩

/-- The problems of a report, in order. -/
def CompileReport.diagnostics : CompileReport → List Diagnostic
  | .modules errors => errors.flatMap fun m => m.problems.map (Problem.toDiagnostic m.path)
  | .general error => [⟨error.title, error.path, none, messageText error.message⟩]

/-- The place where a problem starts; without a region that is the start of the file. -/
def Diagnostic.start (d : Diagnostic) : Position :=
  match d.region with
  | some region => region.start
  | none => ⟨1, 1⟩

/-- The identifier of the place of a problem, if its file is known. -/
def Diagnostic.identifier? (d : Diagnostic) : Option String :=
  d.file.map fun file => Location.errorIdentifier file d.start.line d.start.column

/-- The members of a diagnostic. -/
def Diagnostic.schema : Schema Diagnostic :=
  Diagnostic.mk <$> .required "title" Json.readString <*> .optional "file_path" Json.readString
    <*> .optional "region" (Region.schema.read "Region") <*> .required "message" Json.readString

/-- A diagnostic, on its own. -/
def Diagnostic.read : Reading Diagnostic := Diagnostic.schema.read "Diagnostic"

/-- A diagnostic as JSON. -/
def Diagnostic.toJson (d : Diagnostic) : Json :=
  .object [("title", .string d.title), ("file_path", .ofText? d.file),
    ("region", ofRegion? d.region), ("message", .string d.message)]

end TestTree.Report
