import UpsSetup.Request.Basic

/-!
# Reports on a request

What the operator is told about a command line that cannot be carried out, and the usage text.
-/

namespace UpsSetup

/-! ## What is wrong -/

/-- There is nothing to report, since the request is valid. -/
structure NothingToReport where
  deriving DecidableEq

/-- The wording for it. -/
def NothingToReport.message (_ : NothingToReport) : String := "No invalid options to report"

/-- The lines about one problem: its message, and its hint if it has one. -/
def OptionProblem.report (p : OptionProblem) : List String :=
  ("Option error: " ++ p.message) :: (p.hint.map fun hint => "    (" ++ hint ++ ")").toList

/-- The lines about everything that is wrong. -/
def Request.report (r : Request) : Except NothingToReport (List String) :=
  if r.isValid then .error {}
  else .ok (r.unknownOptions.map ("Unknown option: " ++ ·) ++
    r.problems.flatMap OptionProblem.report ++ r.topLevel.map ("Unexpected argument: " ++ ·))

/-! ## Usage -/

namespace Usage

/-- The configuration directory if no other is given. -/
def defaultDirectory : String := "/etc/nut"

/-- The column in which the explanations start. -/
def column : Nat := 34

/-- The text, filled up with spaces to `width` characters. -/
def padEnd (width : Nat) (text : String) : String :=
  text ++ String.ofList (List.replicate (width - text.length) ' ')

/-- The arguments of an option, as the usage text shows them. -/
def synopsis (d : Descriptor) : String :=
  match d.kind with
  | .help | .flag => ""
  | .value _ choices => if choices.isSome then " <NUT mode>" else " <directory>"
  | .record .listen _ => " <addr> [<port>]"
  | .record _ _ => " <spec>"

/-- What the options of a family configure. -/
def subject : Family → String
  | .monitor => "one monitor (see below)"
  | .listen => "one listen address for the NUT daemon"
  | .device => "one UPS device (see below)"

/-- What the records of a family are called. -/
def noun : Family → String
  | .device => "devices"
  | _ => "entries"

/-- The explanation of an option, where `directory` is the default configuration directory. -/
def explanation (directory : String) (d : Descriptor) : List String :=
  match d.kind with
  | .help => ["Display this help and exit"]
  | .flag =>
    if d = Catalog.autoconfigure then ["Perform autoconfiguration"]
    else if d = Catalog.isConfigured then ["Checks whether NUT is configured"]
    else ["Sets configuration directory to " ++ directory ++ " (default)"]
  | .value _ choices =>
    if choices.isSome then ["Sets NUT mode (see below)"] else ["Sets configuration directory"]
  | .record f false =>
    ["Configures " ++ subject f,
      "All existing " ++ noun f ++ " are removed; however, it may be",
      "specified multiple times to set multiple " ++ noun f]
  | .record f true =>
    ["Same as " ++ f.setOption.option ++ ", but keeps existing " ++ noun f,
      "The two options are mutually exclusive"]

/-- The lines about one option: the option itself stands to the left of its explanation. -/
def optionLines (directory : String) (d : Descriptor) : List String :=
  let head := "    " ++ d.option ++ synopsis d
  (explanation directory d).mapIdx fun i text => padEnd column (if i = 0 then head else "") ++ text

/-- The usage text of the program called `program`. -/
def lines (program directory : String) : List String :=
  ["Usage: " ++ program ++ " [OPTIONS]", "", "OPTIONS:"] ++
    Catalog.all.flatMap (optionLines directory) ++
    ["",
      "NUT modes: " ++ ", ".intercalate (Mode.all.map Mode.name),
      "Monitor is specified by the following sequence:",
      "    <ups_ID> <host>[:<port>] <power_value> <user> <passwd> (\"master\"|\"slave\")",
      "UPS device is specified by the following sequence:",
      "    <ups_ID> <driver> <port> [<description>]",
      ""]

end Usage

end UpsSetup
