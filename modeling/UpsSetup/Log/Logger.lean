import UpsSetup.Log.Level
import UpsSetup.Text.Uppercase

/-!
# Configuration of diagnostics

How much of its diagnostics the tool shows. The level is taken from the environment, in any spelling
whose upper case is the word for a level. A word that stands for no level is answered by a warning
and replaced by a default, which has to be spelled exactly.

A logger has a level of its own and handlers with theirs. Configuring it again changes its level but
not its handler. A logger without a level stands at the level of its parent, and one without handlers
falls back to a bare line for everything grave enough.
-/

namespace UpsSetup

/-- The variable that holds the level. -/
def verbosityVariable : String := "NUTCONF_VERBOSITY"

/-- A logger. -/
structure Logger where
  level : Option Level := none
  /-- The level of each handler. -/
  handlers : List Level := []
  /-- Whether messages go on to the parent. -/
  propagates : Bool := true
  deriving DecidableEq

/-- The level of a logger without a level, and the level from which its messages are shown when it
has no handler. -/
def fallbackLevel : Level := .warning

/-- A word that stands for no level where one is needed. -/
structure UnknownLevel where
  word : String
  deriving DecidableEq

/-- The wording for it: the word alone. -/
def UnknownLevel.message (u : UnknownLevel) : String := u.word

/-- The level to configure, and the warning about a word that stands for none. -/
structure Verbosity where
  warning : Option String
  level : Except UnknownLevel Level

/-- The level that a word from the environment asks for, or the default without one. -/
def Verbosity.ofWord (word : Option String) (default : String) : Verbosity :=
  let shown := Text.upper (word.getD default)
  match Level.ofName? shown with
  | some level => ⟨none, .ok level⟩
  | none =>
    ⟨some ("Warning: Invalid " ++ verbosityVariable ++ " '" ++ shown ++ "', using '" ++ default ++ "'"),
      match Level.ofName? default with
      | some level => .ok level
      | none => .error ⟨default⟩⟩

namespace Logger

/-- Sets the level, and adds a handler of that level if there is none. -/
def configure (l : Logger) (level : Level) : Logger :=
  if l.handlers = [] then ⟨some level, [level], false⟩ else { l with level := some level }

/-- The level at which the logger stands. -/
def effectiveLevel (l : Logger) : Level := l.level.getD fallbackLevel

/-- The line that a handler prints. -/
def line (time logger : String) (level : Level) (message : String) : String :=
  time ++ " - " ++ logger ++ " - " ++ level.name ++ " - " ++ message

/-- The lines that a message leads to. -/
def emit (l : Logger) (time logger : String) (level : Level) (message : String) : List String :=
  if !l.effectiveLevel.allows level then []
  else if l.handlers = [] then if fallbackLevel.allows level then [message] else []
  else (l.handlers.filter (·.allows level)).map fun _ => line time logger level message

end Logger

end UpsSetup
