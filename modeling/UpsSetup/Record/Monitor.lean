import UpsSetup.Record.HostPort

/-!
# Monitored devices

A monitor names a device on a host and the account under which it is watched. It can be given on the
command line as six texts (`MonitorSpec`), and in a file as the five arguments of a directive, where
device, host and port are glued together as `ups@host:port`. `Monitor.arguments` writes the
arguments that `Monitor.ofArguments` reads.
-/

namespace UpsSetup

/-- The role of a machine that is attached to the device and shuts down last. -/
def masterRole : String := "master"

/-- The role of a machine that shuts down before the master does. -/
def slaveRole : String := "slave"

/-- A device to watch. -/
structure Monitor where
  upsName : String
  hostname : String
  /-- The port, where 0 stands for none. What is read from text is at most `maxPort`, but a monitor
  can be made with any number. -/
  port : Int := 0
  /-- How many power supplies of this machine the device feeds. -/
  powerValue : Nat := 1
  username : String := ""
  password : String := ""
  role : String := slaveRole
  deriving DecidableEq

namespace Monitor

/-- Whether this machine is the master of the device. -/
def isMaster (m : Monitor) : Bool := m.role = masterRole

/-- Device, host and port as they are written in a directive. -/
def system (m : Monitor) : String :=
  let system := m.upsName ++ "@" ++ m.hostname
  if m.port = 0 then system else system ++ ":" ++ toString m.port

/-- The arguments of the directive for this monitor. -/
def arguments (m : Monitor) : List String :=
  [m.system, toString m.powerValue, m.username, m.password, m.role]

/-- Reads the arguments of a directive. The device ends at the first at sign. -/
def ofArguments : List String → Except DirectiveFault Monitor
  | [system, powerValue, username, password, role] =>
    match Text.cutFirst '@' system with
    | none => .error (.hostMissing system)
    | some (upsName, hostPort) => do
      let (hostname, port) ← (splitHostPort hostPort).mapError .field
      let powerValue ← (readPowerValue powerValue).mapError .field
      return { upsName, hostname, port, powerValue, username, password, role }
  | args => .error (.monitorArity args.length)

end Monitor

/-- A monitor as it is described on the command line. -/
structure MonitorSpec where
  upsId : String
  hostPort : String
  powerValue : String
  user : String
  password : String
  role : String
  deriving DecidableEq

namespace MonitorSpec

/-- The six texts that describe a monitor. -/
def ofArguments? : List String → Option MonitorSpec
  | [upsId, hostPort, powerValue, user, password, role] =>
    some { upsId, hostPort, powerValue, user, password, role }
  | _ => none

/-- Whether the description asks for the master role. Any other role is that of a slave. -/
def isMaster (spec : MonitorSpec) : Bool := spec.role = masterRole

/-- The monitor described. The host is read before the power value. -/
def toMonitor (spec : MonitorSpec) : Except FieldFault Monitor := do
  let (hostname, port) ← splitHostPort spec.hostPort
  let powerValue ← readPowerValue spec.powerValue
  return {
    upsName := spec.upsId
    hostname, port, powerValue
    username := spec.user
    password := spec.password
    role := if spec.isMaster then masterRole else slaveRole }

end MonitorSpec

end UpsSetup
