import Irida.Base

/-!
# The debug backend interface

`backend.hpp` and `types.hpp`: the seam between the core and a transport.  An
implementation is a state and the operations on it; each of them may fail, and
may change the state even then.
-/

namespace Irida

/-- `BpKind`. -/
inductive Backend.BpKind
  | softwareExec
  | hardwareExec
  | writeWatch
  | readWatch
  | accessWatch
  deriving DecidableEq, Repr

/-- `StopKind`, the normalized reason of a stop. -/
inductive Backend.StopKind
  | breakpoint
  | singleStep
  | signal
  | exited
  | error
  | unknown
  deriving DecidableEq, Repr

/-- `StopReply`. -/
structure Backend.StopReply where
  kind : Backend.StopKind := .unknown
  signal : ℤ := 0
  pc : U64 := 0
  detail : Bytes := []
  deriving DecidableEq, Repr

/-- `Backend`, as far as `Target` uses it. -/
structure Backend (β : Type*) where
  cont : β → Result Backend.StopReply × β
  step : β → Result Backend.StopReply × β
  readRegisters : β → Result Bytes × β
  readMemory : U64 → U64 → β → Result Bytes × β

end Irida
