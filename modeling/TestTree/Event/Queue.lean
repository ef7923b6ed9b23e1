import TestTree.Event.Basic

/-! # Queues of events

The events of one report, in order, from which a consumer takes events at either end. -/

namespace TestTree.Event

/-- Events that wait to be taken. -/
abbrev Queue := List Event

namespace Queue

/-- The first event and the others. -/
def popFront? : Queue → Option (Event × Queue)
  | [] => none
  | event :: rest => some (event, rest)

/-- The last event and the others. -/
def popBack? (queue : Queue) : Option (Event × Queue) :=
  (popFront? queue.reverse).map fun (event, rest) => (event, rest.reverse)

theorem popBack?_concat (queue : Queue) (event : Event) :
    popBack? (queue ++ [event]) = some (event, queue) := by
  simp [popBack?, popFront?]

end Queue

end TestTree.Event
