import UpsSetup.Problem

/-!
# Faults of a record

Why a monitor or a listen address cannot be built from text. A field that does not have its form is
`unreadable`; a number with more digits than `maxDigits` is refused for its length, before its value
is looked at and whatever field it stands for.
-/

namespace UpsSetup

/-- The fields of a record that have a form to keep. -/
inductive Field where
  /-- A host, followed by a colon and a port or not. -/
  | host
  /-- A port that stands alone. -/
  | port
  /-- The number of power supplies that a monitored device feeds. -/
  | powerValue
  /-- A field that is not named further. -/
  | unnamed
  deriving DecidableEq

/-- What messages call a field. -/
def Field.title : Field → String
  | .host => "host specification"
  | .port => "port specification"
  | .powerValue => "power value"
  | .unnamed => "value"

/-- The kind of problem that an unreadable field is. -/
def Field.problemKind? : Field → Option ProblemKind
  | .host => some .hostPortParseError
  | .port => some .portParseError
  | .powerValue => some .powerValueParseError
  | .unnamed => none

/-- The greatest number of digits that a number may be written with. -/
def maxDigits : Nat := 4300

/-- Why a field cannot be read. -/
inductive FieldFault where
  /-- The text does not have the form of the field, or its number is out of range. -/
  | unreadable (field : Field) (text : String)
  /-- A number is written with more than `maxDigits` digits. -/
  | tooManyDigits (digits : Nat)
  deriving DecidableEq

/-- The wording of a fault. -/
def FieldFault.message : FieldFault → String
  | .unreadable field text => "failed to parse " ++ field.title ++ " \"" ++ text ++ "\""
  | .tooManyDigits digits =>
    "Exceeds the limit (" ++ toString maxDigits ++ " digits) for integer string conversion: value has "
      ++ toString digits ++ " digits; use sys.set_int_max_str_digits() to increase the limit"

/-- Why the arguments of a directive do not give a record. -/
inductive DirectiveFault where
  /-- A monitor directive needs five arguments. -/
  | monitorArity (found : Nat)
  /-- A listen directive needs one or two arguments. -/
  | listenArity (found : Nat)
  /-- The system of a monitor has no at sign, and so no host. -/
  | hostMissing (system : String)
  /-- One of the arguments cannot be read. -/
  | field (fault : FieldFault)
  deriving DecidableEq

/-- The wording of a fault. -/
def DirectiveFault.message : DirectiveFault → String
  | .monitorArity found => "MONITOR takes 5 arguments, got " ++ toString found
  | .listenArity found => "LISTEN takes 1 or 2 arguments, got " ++ toString found
  | .hostMissing system => "MONITOR system \"" ++ system ++ "\" lacks a host"
  | .field fault => fault.message

end UpsSetup
