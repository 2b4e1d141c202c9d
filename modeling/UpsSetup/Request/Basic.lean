import UpsSetup.Arguments
import UpsSetup.Record.Device
import UpsSetup.Record.Listen
import UpsSetup.Record.Monitor
import UpsSetup.Request.Problem

/-!
# Requests

What a command line asks for, together with everything that is wrong with it. The check never stops
at the first problem. Each option contributes on its own: its problems depend on nothing but its
occurrences (`Descriptor.problems`), and so do its value and the records it describes. Only the
rule that a family is either replaced or added to looks at two options.

An option that may occur once takes its value from its first occurrence.
-/

namespace UpsSetup

/-! ## One option -/

namespace Descriptor

/-- The problems with the value of an option, given the arguments of its first occurrence. -/
def valueProblem? (d : Descriptor) : List String → Option OptionProblem
  | [] => some (.valueMissing d)
  | [value] =>
    if d.choices.all (value ∈ ·) then none else some (.unknownChoice d value)
  | _ :: _ :: _ => some (.oneValueOnly d)

/-- The problem with the number of arguments that describe a record. -/
def recordProblem? (d : Descriptor) (args : List String) : Option OptionProblem :=
  if args = [] then some (.argumentsMissing d)
  else if d.minArgs = d.maxArgs ∧ args.length ≠ d.minArgs then some (.notExactly d)
  else if args.length < d.minArgs then some (.tooFew d)
  else if d.maxArgs < args.length then some (.tooMany d)
  else none

/-- The problems with an option, given the arguments of each of its occurrences. -/
def problems (d : Descriptor) (occurrences : List (List String)) : List OptionProblem :=
  let repetitions := List.replicate (occurrences.length - 1) (.repeated d)
  match d.kind with
  | .help => []
  | .flag => repetitions ++ (occurrences.filter (· ≠ [])).map fun _ => .takesNoArguments d
  | .value _ _ => repetitions ++ (occurrences.head?.bind d.valueProblem?).toList
  | .record _ _ => occurrences.filterMap d.recordProblem?

end Descriptor

/-! ## The whole command line -/

/-- How often the records of a family are replaced and added. -/
structure FamilyCount where
  set : Nat := 0
  add : Nat := 0
  deriving DecidableEq

/-- Records of one family are both replaced and added. -/
def FamilyCount.conflicting (c : FamilyCount) : Bool := 0 < c.set && 0 < c.add

/-- The existing records of the family are kept. -/
def FamilyCount.keepsExisting (c : FamilyCount) : Bool := 0 < c.add

/-- What a command line asks for, and what is wrong with it. -/
structure Request where
  /-- Options that do not exist, once for each occurrence. -/
  unknownOptions : List String
  /-- Problems with options that exist. -/
  problems : List OptionProblem
  /-- Literals that belong to no option. -/
  topLevel : List String
  help : Bool
  autoconfigure : Bool
  isConfigured : Bool
  system : Bool
  /-- The configuration directory, where one is given. -/
  localDirectory : Option String
  mode : Option Mode
  monitors : List MonitorSpec
  listens : List ListenSpec
  devices : List Device
  count : Family → FamilyCount

namespace Arguments

/-- Options that do not exist, once for each occurrence: all those of one dash, and those of two
dashes that are not in the catalog. -/
def unknownOptions (a : Arguments) : List String :=
  (a.names .one).flatMap (fun name =>
    (a.occurrences name .one).map fun _ => Dashes.one.text ++ name) ++
  (a.names .two).flatMap fun name =>
    match Catalog.find? name with
    | some _ => []
    | none => (a.occurrences name).map fun _ => Dashes.two.text ++ name

/-- How often the records of a family are replaced and added. -/
def familyCount (a : Arguments) (f : Family) : FamilyCount :=
  ⟨a.count f.setOption.name, a.count f.addOption.name⟩

/-- The problems with the options that exist, option by option in the order in which they first
occur, and then the families that are both replaced and added to. -/
def problems (a : Arguments) : List OptionProblem :=
  ((a.names .two).flatMap fun name =>
    match Catalog.find? name with
    | some d => d.problems (a.occurrences name)
    | none => []) ++
  (Family.all.filter fun f => (a.familyCount f).conflicting).map .exclusive

/-- The value of an option, if its first occurrence has one that it accepts. -/
def value? (a : Arguments) (d : Descriptor) : Option String :=
  (a.occurrence? d.name).bind fun args => if d.valueProblem? args = none then args.head? else none

/-- The records of a family in the order in which they are described, where the options of the
family come in the order in which they first occur. -/
def records (a : Arguments) (f : Family) {α : Type} (ofArguments? : List String → Option α) :
    List α :=
  (a.names .two).flatMap fun name =>
    if (Catalog.find? name).bind Descriptor.family? = some f
    then (a.occurrences name).filterMap ofArguments? else []

end Arguments

namespace Request

/-- What the given arguments ask for. -/
def ofArguments (a : Arguments) : Request where
  unknownOptions := a.unknownOptions
  problems := a.problems
  topLevel := a.topLevel
  help := a.isGiven Catalog.help.name
  autoconfigure := 0 < a.count Catalog.autoconfigure.name
  isConfigured := 0 < a.count Catalog.isConfigured.name
  system := 0 < a.count Catalog.system.name
  localDirectory := a.value? Catalog.localDirectory
  mode := (a.value? Catalog.mode).bind Mode.ofName?
  monitors := a.records .monitor MonitorSpec.ofArguments?
  listens := a.records .listen ListenSpec.ofArguments?
  devices := a.records .device Device.ofArguments?
  count := a.familyCount

/-- What the words of a command line ask for. -/
def ofWords (words : List String) : Request := ofArguments (.ofWords words)

/-- Nothing is wrong with the command line. -/
def isValid (r : Request) : Bool :=
  r.unknownOptions.isEmpty && r.problems.isEmpty && r.topLevel.isEmpty

/-- The existing records of a family are kept. -/
def keepsExisting (r : Request) (f : Family) : Bool := (r.count f).keepsExisting

/-- The kinds of everything that is wrong, in the order of the report. -/
def problemKinds (r : Request) : List ProblemKind :=
  r.unknownOptions.map (fun _ => .unknownOption) ++ r.problems.map OptionProblem.kind ++
    r.topLevel.map fun _ => .strayArgument

end Request

end UpsSetup
