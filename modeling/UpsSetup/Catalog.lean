import UpsSetup.Mode
import UpsSetup.Record.Fault

/-!
# The options that exist

Each option of two dashes is described once, in `Catalog.all`; the check of a command line and the
usage text both follow it. Options of one dash do not exist.

Records come in three families. Each family has a pair of options: one replaces the records in the
configuration, the other adds to them.
-/

namespace UpsSetup

/-- The families of records. -/
inductive Family where
  | monitor
  | listen
  | device
  deriving DecidableEq

namespace Family

/-- All families, in the order in which they are reported. -/
def all : List Family := [monitor, listen, device]

/-- The word for a family. -/
def name : Family → String
  | monitor => "monitor"
  | listen => "listen"
  | device => "device"

/-- The least number of arguments that describe a record. -/
def minArgs : Family → Nat
  | monitor => 6
  | listen => 1
  | device => 3

/-- The greatest number of arguments that describe a record. -/
def maxArgs : Family → Nat
  | monitor => 6
  | listen => 2
  | device => 4

/-- Advice for an operator who gave too many arguments. -/
def overflowHint : Family → Option String
  | device => some "perhaps you need to quote description?"
  | _ => none

end Family

/-- What an option does with its arguments. -/
inductive OptionKind where
  /-- Asks for the usage text, whatever else is given. -/
  | help
  /-- Takes no arguments. -/
  | flag
  /-- Takes one value, called `metavar` in messages, and only one of `choices` if there are any. -/
  | value (metavar : String) (choices : Option (List String))
  /-- Describes a record of a family, and replaces or keeps those that exist. -/
  | record (family : Family) (keepsExisting : Bool)
  deriving DecidableEq

/-- An option of two dashes. -/
structure Descriptor where
  name : String
  kind : OptionKind
  deriving DecidableEq

namespace Descriptor

/-- The option as it stands on the command line. -/
def option (d : Descriptor) : String := "--" ++ d.name

/-- The least number of arguments. -/
def minArgs (d : Descriptor) : Nat :=
  match d.kind with
  | .help | .flag => 0
  | .value _ _ => 1
  | .record family _ => family.minArgs

/-- The greatest number of arguments. -/
def maxArgs (d : Descriptor) : Nat :=
  match d.kind with
  | .help | .flag => 0
  | .value _ _ => 1
  | .record family _ => family.maxArgs

/-- The family of records that the option describes. -/
def family? (d : Descriptor) : Option Family :=
  match d.kind with
  | .record family _ => some family
  | _ => none

/-- Whether the option adds to the records that exist. -/
def keepsExisting (d : Descriptor) : Bool :=
  match d.kind with
  | .record _ keeps => keeps
  | _ => false

/-- The values that the option accepts, if they are limited. -/
def choices (d : Descriptor) : Option (List String) :=
  match d.kind with
  | .value _ choices => choices
  | _ => none

/-- What messages call the argument of the option. -/
def metavar (d : Descriptor) : String :=
  match d.kind with
  | .value metavar _ => metavar
  | _ => "argument"

/-- Advice for an operator who gave too many arguments. -/
def overflowHint (d : Descriptor) : Option String := d.family?.bind Family.overflowHint

end Descriptor

/-- The option that replaces the records of a family. -/
def Family.setOption (f : Family) : Descriptor := ⟨"set-" ++ f.name, .record f false⟩

/-- The option that adds to the records of a family. -/
def Family.addOption (f : Family) : Descriptor := ⟨"add-" ++ f.name, .record f true⟩

namespace Catalog

/-- Asks for the usage text. -/
def help : Descriptor := ⟨"help", .help⟩

/-- Asks for a configuration without further questions. -/
def autoconfigure : Descriptor := ⟨"autoconfigure", .flag⟩

/-- Asks whether anything is configured. -/
def isConfigured : Descriptor := ⟨"is-configured", .flag⟩

/-- Chooses the configuration directory. -/
def localDirectory : Descriptor := ⟨"local", .value "directory" none⟩

/-- Chooses the configuration directory of the system. -/
def system : Descriptor := ⟨"system", .flag⟩

/-- Sets the mode of operation. -/
def mode : Descriptor := ⟨"mode", .value "argument" (some (Mode.all.map Mode.name))⟩

/-- All options, in the order of the usage text. -/
def all : List Descriptor :=
  [help, autoconfigure, isConfigured, localDirectory, system, mode] ++
    Family.all.flatMap fun f => [f.setOption, f.addOption]

/-- The option of a name. -/
def find? (name : String) : Option Descriptor := all.find? (·.name = name)

end Catalog

end UpsSetup
