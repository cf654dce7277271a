import Irida.Host.SystemCalls

/-!
# The event pump

The debuggee waits for an event and continues it, in turns.  What it keeps of the event that is
outstanding is the event that `pump` has (`Pumps`).

Only `wait_event` asks something of its caller: that no event is outstanding.

The debuggee is destroyed behind a `detach` even if the process could not be let go of.  If an event
of the process was outstanding then, no object has it any more, and nothing keeps the next debuggee
from waiting.  So what is said of the events is said up to there (`orphans`).
-/

namespace Irida.Host.Win32

open Triples

/-- The object has the event that is outstanding. -/
structure Pumps (o : Outstanding) (i : Impl) : Prop where
  event : o.event = if i.hasPending then some i.pending else none
  attached : i.hasPending = true → i.attached = true

/-- No event is outstanding. -/
def Idle (o : Outstanding) (i : Impl) : Prop :=
  Pumps o i ∧ i.hasPending = false

/-- A process could not be let go of while an event was outstanding. -/
def orphans (o : Outstanding) : Note → Bool
  | .stopped _ ok => !ok && o.event.isSome
  | _ => false

/-- What holds as long as the monitor says something. -/
def Unless (J : Outstanding → Impl → Prop) (o : Option Outstanding) (i : Impl) : Prop :=
  ∀ r ∈ o, J r i

/-- The log follows the monitor up to an excuse, and its state and the object are as `J` says. -/
abbrev Pumping {σ : Type} (J : Outstanding → Impl → Prop) : Debuggee (Logged Note σ) → Prop :=
  Inv (pump.upTo orphans) (Unless J)

section

variable {σ α : Type} {api : Api σ} {J J' : Outstanding → Impl → Prop}
  {E : String → Debuggee (Logged Note σ) → Prop}

theorem Pumping.mono {d : Debuggee (Logged Note σ)} (h : Pumping J d)
    (hmono : ∀ o i, J o i → J' o i) : Pumping J' d :=
  Inv.mono h fun _ i hJ o ho => hmono o i (hJ o ho)

end

end Irida.Host.Win32
