import UpsSetup.Record.Fault
import UpsSetup.Text.Literal

/-!
# Failures

What ends a run too early. A failure is either *reported*, which means that the operator is told in
one line and the run fails, or unforeseen, which ends the run as an internal error.
-/

namespace UpsSetup

/-- What was to be done in the configuration directory. -/
inductive StorageStep where
  /-- Anything. -/
  | access
  /-- Finding the directory. -/
  | directory
  /-- Reading a file. -/
  | parse
  /-- Writing a file. -/
  | write
  deriving DecidableEq

/-- Something in the configuration directory could not be done. -/
structure StorageError where
  step : StorageStep
  path : String
  /-- The words of the system about it. -/
  reason : Option String := none
  deriving DecidableEq

/-- The wording for it. -/
def StorageError.message (e : StorageError) : String :=
  match e.step with
  | .access => e.path
  | .directory => "Configuration directory " ++ e.path ++ " isn't available"
  | .parse => "Failed to parse " ++ e.path
  | .write => "Failed to write " ++ e.path

/-- What ends a run. -/
inductive Failure where
  /-- A record cannot be built. -/
  | field (fault : FieldFault)
  /-- The configuration directory cannot be used. -/
  | storage (error : StorageError)
  /-- A path holds the character U+0000. -/
  | nulCharacter
  /-- A name in a path is too long to ask for what is there. -/
  | nameTooLong (path : String)
  deriving DecidableEq

namespace Failure

/-- The wording of a failure. -/
def message : Failure → String
  | field fault => fault.message
  | storage error => error.message
  | nulCharacter => "embedded null byte"
  | nameTooLong path => "[Errno 36] File name too long: " ++ Text.literal path

/-- Whether the operator is told about a failure. The others are internal errors. -/
def isReported : Failure → Bool
  | field (.unreadable _ _) | storage _ => true
  | field (.tooManyDigits _) | nulCharacter | nameTooLong _ => false

end Failure

end UpsSetup
