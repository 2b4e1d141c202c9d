/-!
# Kinds of problems

The kinds into which everything that can be wrong with a command line falls: the shape of its
options, and the values of the records it describes.
-/

namespace UpsSetup

/-- A kind of problem with a command line. -/
inductive ProblemKind where
  | unknownOption
  | duplicateScalarOption
  | missingArgument
  | arityMismatch
  | invalidEnumValue
  | mutualExclusionViolation
  | strayArgument
  | hostPortParseError
  | portParseError
  | powerValueParseError
  deriving DecidableEq

/-- The short description of a kind of problem, as diagnostics show it. -/
def ProblemKind.title : ProblemKind → String
  | .unknownOption => "unknown option"
  | .duplicateScalarOption => "duplicate option"
  | .missingArgument => "missing argument"
  | .arityMismatch => "wrong argument count"
  | .invalidEnumValue => "invalid value"
  | .mutualExclusionViolation => "mutually exclusive options"
  | .strayArgument => "unexpected argument"
  | .hostPortParseError => "bad host specification"
  | .portParseError => "bad port specification"
  | .powerValueParseError => "bad power value"

end UpsSetup
