import UpsSetup.Document.Devices
import UpsSetup.Document.Directives
import UpsSetup.Log.Logger
import UpsSetup.Request.Report
import UpsSetup.Storage

/-!
# Running the tool

What the tool does with its command line. In this order: it shows the usage text if that is asked
for, reports everything that is wrong, looks for the configuration directory, answers whether
anything is configured, or changes the files. All records are built before the first file is
touched, and each file is read, changed and written before the next one is looked at.
-/

namespace UpsSetup

/-- The variables of the environment that matter. -/
structure Environment where
  /-- The configuration directory of the system. -/
  directory : Option String := none
  /-- How much of the diagnostics is shown. -/
  verbosity : Option String := none
  deriving DecidableEq

/-- The variable that holds the configuration directory of the system. -/
def directoryVariable : String := "NUTCONF_CONFPATH"

/-- The text, unless it is empty. -/
def nonempty? (text : Option String) : Option String := text.filter (· ≠ "")

/-- The configuration directory of the system. An empty variable is as good as none. -/
def Environment.defaultDirectory (env : Environment) : String :=
  (nonempty? env.directory).getD Usage.defaultDirectory

/-! ## Changing the files -/

/-- The records that a request describes. -/
structure Records where
  monitors : List Monitor
  listens : List Listen
  deriving DecidableEq

namespace Request

/-- Builds the records, monitors before listen addresses. The first that cannot be built fails. -/
def materialize (r : Request) : Except FieldFault Records := do
  let monitors ← r.monitors.mapM MonitorSpec.toMonitor
  let listens ← r.listens.mapM ListenSpec.toListen
  return { monitors, listens }

/-- The configuration directory. An empty one stands for that of the system. -/
def directory (r : Request) (env : Environment) : String :=
  (nonempty? r.localDirectory).getD env.defaultDirectory

/-- Puts the records into the file of directives that holds them. -/
def applyRecords {ρ : Type} [Managed ρ] (r : Request) (family : Family) (records : List ρ)
    (directory : Path) : Job Unit :=
  let keeps := r.keepsExisting family
  Job.onlyIf !records.isEmpty <|
    Job.updateDocument (α := DirectiveFile ρ) directory
      (some (.recordsSet family keeps records.length)) (·.setRecords records keeps)

/-- Puts the devices into the file of devices. -/
def applyDevices (r : Request) (directory : Path) : Job Unit :=
  let keeps := r.keepsExisting .device
  Job.onlyIf !r.devices.isEmpty <|
    Job.updateDocument (α := DeviceFile) directory
      (some (.recordsSet .device keeps r.devices.length)) (·.setDevices r.devices keeps)

/-- Puts the mode into the file of assignments. -/
def applyMode (r : Request) (directory : Path) : Job Unit :=
  match r.mode with
  | some mode => Job.updateDocument (α := Assignments) directory none (·.setMode mode)
  | none => return

/-- Makes all changes that a request asks for. -/
def apply (r : Request) (directory : Path) : Job Unit := do
  let records ← Job.ofExcept (r.materialize.mapError .field)
  r.applyRecords .monitor records.monitors directory
  r.applyRecords .listen records.listens directory
  r.applyDevices directory
  r.applyMode directory

end Request

/-! ## A run -/

/-- What a run tells the operator: its exit code and the lines it prints. -/
structure Answer where
  code : Nat
  output : List String := []
  errors : List String := []
  deriving DecidableEq

/-- The exit code of a run that did its work. -/
def successCode : Nat := 0

/-- The exit code of a run that could not do its work, or answers no. -/
def failureCode : Nat := 1

/-- The exit code of an internal error. -/
def internalErrorCode : Nat := 128

/-- A command line and the name under which the tool was called. -/
structure Invocation where
  /-- The path under which the tool was called; only what follows its last slash is shown. -/
  program : String := "nutconf"
  words : List String
  environment : Environment := {}
  deriving DecidableEq

namespace Invocation

/-- The name under which the tool shows itself. -/
def programName (i : Invocation) : String :=
  let name := ((Text.cutLast '/' i.program).map (·.2)).getD i.program
  if name = "" then "nutconf" else name

/-- The usage text. -/
def usage (i : Invocation) : List String :=
  Usage.lines i.programName i.environment.defaultDirectory

/-- Carries a valid request out. -/
def carryOut (i : Invocation) (r : Request) : Job Answer := do
  let directory ← Job.checkDirectory (r.directory i.environment)
  if r.isConfigured then
    let configured ← Job.isConfigured directory
    return if configured then { code := successCode, output := ["true"] }
      else { code := failureCode, output := ["false"] }
  else
    Job.onlyIf r.autoconfigure (Job.note .autoconfigureIgnored)
    r.apply directory
    return { code := successCode }

/-- Does what the command line asks for. -/
def job (i : Invocation) : Job Answer := do
  let arguments := Arguments.ofWords i.words
  let request := Request.ofArguments arguments
  (arguments.dump.map Event.given ++ request.problems.map Event.optionProblem).forM Job.note
  if request.help then return { code := successCode, errors := i.usage }
  else
    match request.report with
    | .ok report =>
      Job.note (.invalidOptions request.problemKinds)
      return { code := failureCode, errors := report ++ i.usage }
    | .error _ => i.carryOut request

end Invocation

/-- What a run leaves behind: the tree, all events, and its answer. -/
structure Execution where
  tree : Tree
  log : List Event
  answer : Answer

namespace Invocation

/-- Runs the tool on a directory tree. -/
def execute (i : Invocation) (t : Tree) : Execution :=
  let outcome := i.job.run t
  match outcome.result with
  | .ok answer => ⟨outcome.tree, outcome.log, answer⟩
  | .error failure =>
    if failure.isReported then
      ⟨outcome.tree, outcome.log,
        { code := failureCode, errors := ["Error: " ++ failure.message] }⟩
    else ⟨outcome.tree, outcome.log ++ [.unhandled failure], { code := internalErrorCode }⟩

/-- The level of the diagnostics that are shown, and the warning if the environment names none. -/
def verbosity (i : Invocation) : Option String × Level :=
  let v := Verbosity.ofWord i.environment.verbosity fallbackLevel.name
  (v.warning, v.level.toOption.getD fallbackLevel)

end Invocation

/-- The events that are shown. -/
def Execution.shownEvents (e : Execution) (threshold : Level) : List Event :=
  e.log.filter fun event => threshold.allows event.level

end UpsSetup
