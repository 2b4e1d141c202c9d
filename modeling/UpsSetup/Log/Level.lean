/-!
# Levels of diagnostics

How grave a diagnostic is. A logger passes on what is at least as grave as its level.
-/

namespace UpsSetup

/-- The gravity of a diagnostic. -/
inductive Level where
  | debug
  | info
  | warning
  | error
  | critical
  deriving DecidableEq

namespace Level

/-- The word for a level. -/
def name : Level → String
  | debug => "DEBUG"
  | info => "INFO"
  | warning => "WARNING"
  | error => "ERROR"
  | critical => "CRITICAL"

/-- All levels, in ascending order. -/
def all : List Level := [debug, info, warning, error, critical]

/-- The place of a level in ascending order. -/
def rank : Level → Nat
  | debug => 0
  | info => 1
  | warning => 2
  | error => 3
  | critical => 4

/-- A message of level `l` passes the threshold. -/
def allows (threshold l : Level) : Bool := threshold.rank ≤ l.rank

/-- The level that a word stands for. -/
def ofName? (word : String) : Option Level := all.find? (·.name = word)

end Level

end UpsSetup
