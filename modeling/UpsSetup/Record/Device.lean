/-!
# Devices

A device as it is described on the command line: its identifier, which names its section, and the
entries of that section that the tool manages.
-/

namespace UpsSetup

/-- A device to configure. An empty description is none. -/
structure Device where
  id : String
  driver : String
  port : String
  description : String := ""
  deriving DecidableEq

/-- The three or four texts that describe a device. -/
def Device.ofArguments? : List String → Option Device
  | [id, driver, port] => some { id, driver, port }
  | [id, driver, port, description] => some { id, driver, port, description }
  | _ => none

end UpsSetup
