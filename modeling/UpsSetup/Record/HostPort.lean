import UpsSetup.Record.Fault
import UpsSetup.Text.Cut

/-!
# Numbers and ports in text

An unsigned number is one or more of the ten digits and nothing else. A host and its port are
written with a colon between them; since a host may hold colons itself, the last one counts. A host
without a port has port 0.
-/

namespace UpsSetup

/-- The greatest port. -/
def maxPort : Nat := 65535

/-- Whether a text has the form of an unsigned number. -/
def isUnsigned (cs : List Char) : Bool := !cs.isEmpty && cs.all Char.isDigit

/-- Reads an unsigned number that is at most `limit`, where one is given. A text without the form,
or a number beyond the limit, is reported as an unreadable `field` with the text `shown`. -/
def readUnsigned (field : Field) (shown : String) (limit : Option Nat) (text : String) :
    Except FieldFault Nat :=
  let digits := text.toList
  if !isUnsigned digits then .error (.unreadable field shown)
  else if maxDigits < digits.length then .error (.tooManyDigits digits.length)
  else
    let number := Nat.ofDigitChars 10 digits 0
    if limit.any (· < number) then .error (.unreadable field shown) else .ok number

/-- Reads a port. -/
def readPort (text : String) : Except FieldFault Nat :=
  readUnsigned .port text (some maxPort) text

/-- Reads a power value, which has no upper bound. -/
def readPowerValue (text : String) : Except FieldFault Nat :=
  readUnsigned .powerValue text none text

/-- Reads a host and a port, separated by the last colon. Without a colon the port is 0. -/
def splitHostPort (text : String) : Except FieldFault (String × Nat) :=
  match Text.cutLast ':' text with
  | none => .ok (text, 0)
  | some (host, port) => (host, ·) <$> readUnsigned .host text (some maxPort) port

end UpsSetup
