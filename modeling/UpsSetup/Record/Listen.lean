import UpsSetup.Record.HostPort

/-!
# Listen addresses

An address on which the server accepts connections, with or without a port. `Listen.arguments`
writes the arguments that `Listen.ofArguments` reads.
-/

namespace UpsSetup

/-- An address to listen on. -/
structure Listen where
  address : String
  /-- The port. What is read from text is at most `maxPort`, but an address can be made with any
  number. -/
  port : Option Int := none
  deriving DecidableEq

namespace Listen

/-- The arguments of the directive for this address. -/
def arguments (l : Listen) : List String :=
  l.address :: (l.port.map toString).toList

/-- Reads the arguments of a directive. -/
def ofArguments : List String → Except DirectiveFault Listen
  | [address] => .ok { address }
  | [address, port] => do
    let port ← (readPort port).mapError .field
    return { address, port := some port }
  | args => .error (.listenArity args.length)

end Listen

/-- A listen address as it is described on the command line. -/
structure ListenSpec where
  address : String
  port : Option String := none
  deriving DecidableEq

namespace ListenSpec

/-- The one or two texts that describe a listen address. -/
def ofArguments? : List String → Option ListenSpec
  | [address] => some { address }
  | [address, port] => some { address, port := some port }
  | _ => none

/-- The address described. An empty port is as good as none. -/
def toListen (spec : ListenSpec) : Except FieldFault Listen :=
  match spec.port with
  | none => .ok { address := spec.address }
  | some port =>
    if port = "" then .ok { address := spec.address }
    else do
      let port ← readPort port
      return { address := spec.address, port := some port }

end ListenSpec

end UpsSetup
