import UpsSetup.Line.Written
import UpsSetup.Record.Fault

/-!
# Faults of a document

Why a document rejects a line: the line cannot be taken apart, its tokens have no form that the
document knows, or the record on it cannot be built. A syntax error names the line.
-/

namespace UpsSetup

/-- Why a document rejects a line. -/
inductive LineFault where
  /-- The line cannot be taken apart into tokens. -/
  | flaw (flaw : Line.Flaw)
  /-- The line is no assignment. -/
  | expectedAssignment
  /-- The line is a section header without a name. -/
  | emptySectionName
  /-- The line is neither an entry with a value nor a flag. -/
  | expectedEntry
  /-- The line is a directive whose arguments give no record. -/
  | directive (fault : DirectiveFault)
  deriving DecidableEq

/-- The wording of a fault. -/
def LineFault.message : LineFault → String
  | .flaw f => f.message
  | .expectedAssignment => "expected KEY=value"
  | .emptySectionName => "empty section name"
  | .expectedEntry => "expected \"key = value\" or a flag"
  | .directive fault => fault.message

/-- A line that is rejected, by its number. -/
structure SyntaxError where
  line : Int
  fault : LineFault
  deriving DecidableEq

/-- The wording for something that is wrong on a line. -/
def SyntaxError.wording (line : Int) (text : String) : String :=
  "line " ++ toString line ++ ": " ++ text

/-- The wording of a syntax error. -/
def SyntaxError.message (e : SyntaxError) : String := wording e.line e.fault.message

/-- The tokens of the line with the given number. -/
def tokenizeLine (number : Int) (line : String) : Except SyntaxError (List String) :=
  (Line.tokenize line).mapError fun f => ⟨number, .flaw f⟩

end UpsSetup
