import TestTree.Text.Numeral

/-! # Log entries

What the program notes on the way, for whoever runs it. -/

namespace TestTree.Log

/-- How much an entry matters. -/
inductive Level where
  | debug
  | info
  | warn
  deriving DecidableEq, Repr

/-- The name of a level. -/
def Level.name : Level → String
  | .debug => "DEBUG"
  | .info => "INFO"
  | .warn => "WARN"

/-- The rank of a level, the most important first. -/
def Level.rank : Level → Nat
  | .warn => 0
  | .info => 1
  | .debug => 2

/-- An entry of the log: a message, and facts by name. -/
structure Entry where
  level : Level
  message : String
  facts : List (String × String)
  deriving DecidableEq, Repr

/-- An entry of level debug. -/
def debug (message : String) (facts : List (String × String)) : Entry := ⟨.debug, message, facts⟩

/-- An entry of level info. -/
def info (message : String) (facts : List (String × String)) : Entry := ⟨.info, message, facts⟩

/-- An entry of level warn. -/
def warn (message : String) (facts : List (String × String)) : Entry := ⟨.warn, message, facts⟩

/-- A count among the facts of an entry. -/
def count (n : Nat) : String := String.ofList (Text.Numeral.digits n)

end TestTree.Log
