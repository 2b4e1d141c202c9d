/-!
# Modes

The part that a machine plays in the supervision of its power supplies.
-/

namespace UpsSetup

/-- A mode of operation. -/
inductive Mode where
  | standalone
  | netserver
  | netclient
  | controlled
  | manual
  /-- Nothing is configured yet. -/
  | none
  deriving DecidableEq

namespace Mode

/-- The word for a mode. -/
def name : Mode → String
  | standalone => "standalone"
  | netserver => "netserver"
  | netclient => "netclient"
  | controlled => "controlled"
  | manual => "manual"
  | none => "none"

/-- All modes, in the order in which they are listed for the operator. -/
def all : List Mode := [standalone, netserver, netclient, controlled, manual, none]

/-- The mode that a word stands for. -/
def ofName? (word : String) : Option Mode := all.find? (·.name = word)

@[simp] theorem ofName?_name (m : Mode) : ofName? m.name = some m := by
  cases m <;> decide

/-- Each mode has one name, and no two modes share it. -/
theorem ofName?_eq_some_iff {word : String} {m : Mode} : ofName? word = some m ↔ word = m.name := by
  constructor
  · intro h
    simpa [eq_comm] using List.find?_some h
  · rintro rfl
    exact ofName?_name m

end Mode

end UpsSetup
