import Irida.Target.Target
import Irida.Transport.Pairing

/-!
# The gdb backend

`gdb_backend.cpp`: the client behind the backend interface, and what is made of
its stop replies on the way to the target.
-/

namespace Irida.GdbBackend

open Host Transport

/-- `to_gdb_type`. -/
def toGdbType : Backend.BpKind → ℤ
  | .softwareExec => 0
  | .hardwareExec => 1
  | .writeWatch => 2
  | .readWatch => 3
  | .accessWatch => 4

/-- `translate_stop`. -/
def translateStop (wire : Proto.StopReply) : Backend.StopReply :=
  { signal := wire.code
    detail := wire.output
    kind :=
      match wire.kind with
      | .signal =>
        if wire.info.any fun (key, _) => key = ascii "swbreak" ∨ key = ascii "hwbreak" then
          .breakpoint
        else .signal
      | .exited => .exited
      | .terminated => .error
      | .output => .unknown
      | .unknown => .unknown }

section

variable (server : Server)

/-- `attach`, where `dial` is the outcome of the connection itself. -/
def attach (dial : Result TcpClient) (c : GdbClient) : Result Unit × GdbClient :=
  match c.connect server dial with
  | (.error e, c) => (.error e, c)
  | (.ok _, c) =>
    match c.haltReason server with
    | (.error e, c) => (.error e, c)
    | (.ok _, c) => (.ok (), c)

/-- `detach`. -/
def detach (c : GdbClient) : Result Unit × GdbClient :=
  (.ok (), c.disconnect)

/-- The translation shared by `cont` and `step`. -/
def translated (r : Result Proto.StopReply × GdbClient) :
    Result Backend.StopReply × GdbClient :=
  match r with
  | (.error e, c) => (.error e, c)
  | (.ok wire, c) => (.ok (translateStop wire), c)

/-- `GdbBackend` as a backend. -/
def ops : Backend GdbClient where
  cont c := translated (c.cont server)
  step c := translated (c.step server)
  readRegisters c := c.readRegisters server
  readMemory addr len c := c.readMemory server addr len

/-- `set_breakpoint`. -/
def setBreakpoint (kind : Backend.BpKind) (addr : U64) (size : ℤ) (c : GdbClient) :
    Result Unit × GdbClient :=
  c.setBreakpoint server (toGdbType kind) addr size

/-- `remove_breakpoint`. -/
def removeBreakpoint (kind : Backend.BpKind) (addr : U64) (size : ℤ) (c : GdbClient) :
    Result Unit × GdbClient :=
  c.removeBreakpoint server (toGdbType kind) addr size

end

end Irida.GdbBackend
