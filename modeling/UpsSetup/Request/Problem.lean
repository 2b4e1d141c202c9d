import UpsSetup.Catalog

/-!
# Problems with options

What can be wrong with the options of a command line. A problem names the option it is about and
keeps what its message needs; kind, message and hint are derived from it.
-/

namespace UpsSetup

/-- One problem with the options of a command line. -/
inductive OptionProblem where
  /-- An option that may occur once occurs again. -/
  | repeated (option : Descriptor)
  /-- A flag has arguments. -/
  | takesNoArguments (option : Descriptor)
  /-- The option has no value. -/
  | valueMissing (option : Descriptor)
  /-- The option has more than one value. -/
  | oneValueOnly (option : Descriptor)
  /-- The value is none of those that the option accepts. -/
  | unknownChoice (option : Descriptor) (value : String)
  /-- A record is described by no arguments at all. -/
  | argumentsMissing (option : Descriptor)
  /-- A record needs another number of arguments, and only one number will do. -/
  | notExactly (option : Descriptor)
  /-- A record needs more arguments. -/
  | tooFew (option : Descriptor)
  /-- A record needs fewer arguments. -/
  | tooMany (option : Descriptor)
  /-- Records of a family are both replaced and added. -/
  | exclusive (family : Family)
  deriving DecidableEq

namespace OptionProblem

/-- The kind of a problem. -/
def kind : OptionProblem → ProblemKind
  | repeated _ => .duplicateScalarOption
  | takesNoArguments _ | oneValueOnly _ | notExactly _ | tooFew _ | tooMany _ => .arityMismatch
  | valueMissing _ | argumentsMissing _ => .missingArgument
  | unknownChoice _ _ => .invalidEnumValue
  | exclusive _ => .mutualExclusionViolation

/-- The wording of a problem. -/
def message : OptionProblem → String
  | repeated d => d.option ++ " option specified more than once"
  | takesNoArguments d => d.option ++ " option takes no arguments"
  | valueMissing d => d.option ++ " option requires an argument"
  | oneValueOnly d =>
    "Only one " ++ d.metavar ++ " may be specified with the " ++ d.option ++ " option"
  | unknownChoice d value => "Unknown NUT " ++ d.name ++ ": \"" ++ value ++ "\""
  | argumentsMissing d => d.option ++ " option requires arguments"
  | notExactly d => d.option ++ " option requires exactly " ++ toString d.minArgs ++ " arguments"
  | tooFew d => d.option ++ " option requires at least " ++ toString d.minArgs ++ " arguments"
  | tooMany d => d.option ++ " option takes at most " ++ toString d.maxArgs ++ " arguments"
  | exclusive f =>
    f.setOption.option ++ " and " ++ f.addOption.option ++ " options can't both be specified"

/-- Advice that goes with a problem. -/
def hint : OptionProblem → Option String
  | tooMany d => d.overflowHint
  | _ => none

end OptionProblem

end UpsSetup
