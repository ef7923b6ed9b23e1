import TestTree.CommandLine.Plan
import TestTree.Text.Split

/-! # Directories as values

A directory with files and directories in it, without a disk: what file names stand for in it
follows from their parts. It is filled name by name (`addFolder`, `addFile`), and a name makes the
directories that it passes. What is outside of the directory is not known, except that there is a
directory around it, and what each machine has (`Machine`). -/

namespace TestTree.CommandLine

/-- The files of a directory with what they hold, and all directories in it, each by the names that
lead to it. -/
structure Directory where
  files : List (List String × List UInt8)
  folders : List (List String)

namespace Directory

/-- The parts of a file name. -/
def parts (name : String) : List String :=
  let (first, later) := Text.fields '/' name.toList
  (first :: later).map String.ofList

/-- A part that stays where it is. -/
def staysAt (part : String) : Bool := part = "" || part = "."

/-! ### Filling a directory -/

/-- A directory with nothing in it. -/
def empty : Directory := ⟨[], []⟩

/-- One part of a name further, into a directory that is made by that. Nothing is made outside. -/
def makeStep : Directory × Option (List String) → String → Directory × Option (List String)
  | (d, none), _ => (d, none)
  | (d, some names), part =>
    if staysAt part then (d, some names)
    else if part = ".." then (d, if names.isEmpty then none else some names.dropLast)
    else ({ d with folders := (names ++ [part]) :: d.folders }, some (names ++ [part]))

/-- A directory with a further directory in it. -/
def addFolder (d : Directory) (name : String) : Directory :=
  ((parts name).foldl makeStep (d, some [])).1

/-- A directory with a further file in it, in place of an earlier one of the same name. -/
def addFile (d : Directory) (name : String) (octets : List UInt8) : Directory :=
  match (parts name).dropLast.foldl makeStep (d, some []), (parts name).getLast? with
  | (made, some names), some last => { made with files := (names ++ [last], octets) :: made.files }
  | (made, _), _ => made

/-- The directory with given directories and files. -/
def ofNames (folders : List String) (files : List (String × List UInt8)) : Directory :=
  files.foldl (fun d (name, octets) => d.addFile name octets) (folders.foldl addFolder empty)

/-! ### Names -/

/-- There is a directory at a place in the directory. -/
def isFolder (d : Directory) (names : List String) : Bool :=
  names.isEmpty || d.folders.contains names

/-- What the file at a place in the directory holds. -/
def file? (d : Directory) (names : List String) : Option (List UInt8) :=
  (d.files.find? fun (file, _) => file = names).map (·.2)

namespace Machine

/-- The directories that each machine has, by the names that lead to them from the root. -/
def folders : List (List String) := [[], ["dev"], ["tmp"]]

/-- The devices that each machine has. -/
def devices : List (List String) := [["dev", "null"], ["dev", "tty"]]

end Machine

/-- Where a walk through directories stands. -/
inductive Place where
  | inside (names : List String)
  /-- A directory around the given one. -/
  | around
  /-- A place that is named from the root of the machine. -/
  | machine (names : List String)
  | nowhere

/-- One part of a name further. Only from a directory does a part lead on. -/
def step (d : Directory) : Place → String → Place
  | .nowhere, _ => .nowhere
  | .around, part => if staysAt part || part = ".." then .around else .nowhere
  | .machine names, part =>
    if !Machine.folders.contains names then .nowhere
    else if staysAt part then .machine names
    else if part = ".." then .machine names.dropLast
    else .machine (names ++ [part])
  | .inside names, part =>
    if !d.isFolder names then .nowhere
    else if staysAt part then .inside names
    else if part = ".." then if names.isEmpty then .around else .inside names.dropLast
    else .inside (names ++ [part])

/-- The size in octets from which on a name leads nowhere. -/
def tooLong : Nat := 4096

/-- The place that a name leads to. A slash at the start stands for the root of the machine. -/
def place (d : Directory) (name : String) : Place :=
  if name = "" || tooLong ≤ name.utf8ByteSize then .nowhere
  else (parts name).foldl d.step (if name.toList.head? = some '/' then .machine [] else .inside [])

/-- What a name stands for. -/
def entry (d : Directory) (name : String) : Entry :=
  match d.place name with
  | .nowhere => .missing
  | .around => .other
  | .machine names =>
    if (Machine.folders ++ Machine.devices).contains names then .other else .missing
  | .inside names =>
    if (d.file? names).isSome then .file else if d.isFolder names then .other else .missing

/-- What the file with a name holds. -/
def read? (d : Directory) (name : String) : Option (List UInt8) :=
  match d.place name with
  | .inside names => d.file? names
  | _ => none

end Directory

end TestTree.CommandLine
