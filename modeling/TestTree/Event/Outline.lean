import TestTree.Event.Basic

/-! # Outlines

What a test console keeps while it builds the tree: the names of the suites that are open, the
innermost first. Only the innermost suite can be finished; events that finish another one, or one
where none is open, are refused. -/

namespace TestTree.Event

/-- The names of the open suites, the innermost first. -/
abbrev Outline := List String

namespace Outline

/-- One event; none if it is refused. -/
def step (outline : Outline) : Event → Option Outline
  | suiteStarted name _ => some (name :: outline)
  | suiteFinished name =>
    match outline with
    | top :: rest => if top = name then some rest else none
    | [] => none
  | _ => some outline

/-- Several events; none if one of them is refused. -/
def run (outline : Outline) : List Event → Option Outline
  | [] => some outline
  | event :: rest => (outline.step event).bind (run · rest)

theorem run_append (outline : Outline) (s t : List Event) :
    outline.run (s ++ t) = (outline.run s).bind (·.run t) := by
  induction s generalizing outline with
  | nil => rfl
  | cons event rest ih =>
    cases h : outline.step event with
    | none => simp [run, h]
    | some o => simp [run, h, ih]

end Outline

end TestTree.Event
