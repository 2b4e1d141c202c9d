import UpsSetup.Document.Basic
import UpsSetup.Failure
import UpsSetup.Log.Level
import UpsSetup.Request.Problem

/-!
# Diagnostics

What the tool notes about its work. An event is a value; its level, the channel on which it is noted
and its message are derived from it, so a run is the same whatever part of its diagnostics is shown.
-/

namespace UpsSetup

/-- The parts of the tool that note diagnostics. -/
inductive Channel where
  | arguments
  | options
  | documents
  | merge
  | files
  | command
  deriving DecidableEq

/-- The name under which a part of the tool notes diagnostics. -/
def Channel.name : Channel → String
  | arguments => "nutconf.options.store"
  | options => "nutconf.options.model"
  | documents => "nutconf.configuration.documents"
  | merge => "nutconf.configuration.merge"
  | files => "nutconf.configuration.files"
  | command => "nutconf.tool.main"

/-- A diagnostic. -/
inductive Event where
  /-- A line of the list of everything that was given. -/
  | given (line : String)
  /-- Something is wrong with an option. -/
  | optionProblem (problem : OptionProblem)
  /-- A document was read up to a line that was rejected. -/
  | syntaxError (document : DocumentKind) (error : SyntaxError)
  /-- A document could not be written to its end. -/
  | writeFailed (document : DocumentKind) (reason : String)
  /-- Records of a family are put into a document. -/
  | recordsSet (family : Family) (keepsExisting : Bool) (count : Nat)
  /-- There is no file yet. -/
  | startingEmpty (path : String)
  | sourced (path : String)
  | wrote (path : String)
  /-- The file with the mode cannot be read. -/
  | modeUnknown (error : StorageError)
  /-- The command line cannot be carried out. -/
  | invalidOptions (kinds : List ProblemKind)
  | autoconfigureIgnored
  /-- The run ends as an internal error. -/
  | unhandled (failure : Failure)
  deriving DecidableEq

namespace Event

/-- The level of an event. -/
def level : Event → Level
  | given _ | optionProblem _ | startingEmpty _ | sourced _ | invalidOptions _ => .debug
  | recordsSet _ _ _ | wrote _ => .info
  | modeUnknown _ | autoconfigureIgnored => .warning
  | syntaxError _ _ | writeFailed _ _ => .error
  | unhandled _ => .critical

/-- The part of the tool that notes an event. -/
def channel : Event → Channel
  | given _ => .arguments
  | optionProblem _ => .options
  | syntaxError _ _ | writeFailed _ _ => .documents
  | recordsSet _ _ _ => .merge
  | startingEmpty _ | sourced _ | wrote _ | modeUnknown _ => .files
  | invalidOptions _ | autoconfigureIgnored | unhandled _ => .command

/-- What the records of a family are called in diagnostics. -/
def plural : Family → String
  | .monitor => "monitor(s)"
  | .listen => "listen address(es)"
  | .device => "device(s)"

/-- The wording of an event. -/
def message : Event → String
  | given line => line
  | optionProblem p => "option error (" ++ p.kind.title ++ "): " ++ p.message
  | syntaxError document e => document.title ++ ": " ++ e.message
  | writeFailed document reason => document.title ++ ": write failed: " ++ reason
  | recordsSet family keeps count =>
    (if keeps then "adding " else "setting ") ++ toString count ++ " " ++ plural family
  | startingEmpty path => path ++ " does not exist, starting empty"
  | sourced path => "sourced " ++ path
  | wrote path => "wrote " ++ path
  | modeUnknown e => e.message ++ "; treating NUT as not configured"
  | invalidOptions kinds => "invalid options: " ++ ", ".intercalate (kinds.map ProblemKind.title)
  | autoconfigureIgnored => "--autoconfigure is not supported yet, ignoring it"
  | unhandled failure => "Unhandled exception: " ++ failure.message

end Event

end UpsSetup
