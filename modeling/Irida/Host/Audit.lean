import Irida.Host.NativeDebuggee

/-!
# A record of the calls on a debuggee

`NativeDebuggee.audit` is a debuggee with a log of the calls that were made on it and of what they
answered.  Nothing else is changed, so that what a backend does over it is what it does over the
debuggee itself.

A call that is put together from others appends what these append, and it succeeds exactly if none
of them fails (`Call.Logs`).
-/

namespace Irida.Host

/-- A call of a debuggee with its answer, as far as it is needed. -/
inductive HostCall
  /-- with the event that was taken -/
  | waitEvent (event : Option DbgEvent)
  | setHwExecBp (slot : ℤ) (addr : U64) (ok : Bool)
  | clearHwBp (slot : ℤ) (ok : Bool)
  | other (ok : Bool)
  deriving DecidableEq, Repr

namespace HostCall

/-- The event that was taken. -/
def event? : HostCall → Option DbgEvent
  | .waitEvent event => event
  | _ => none

/-- The call succeeded. -/
def ok : HostCall → Bool
  | .waitEvent event => event.isSome
  | .setHwExecBp _ _ ok | .clearHwBp _ ok | .other ok => ok

end HostCall

/-- A debuggee with the calls that were made on it. -/
structure Audited (δ : Type) where
  debuggee : δ
  log : List HostCall := []
  deriving DecidableEq

variable {δ α β : Type}

namespace Call

/-- The call, with its answer appended to the log. -/
def noted (note : Result α → HostCall) (x : Call δ α) : Call (Audited δ) α := fun d =>
  ((x.outcome d.debuggee).1,
    { debuggee := (x.outcome d.debuggee).2, log := d.log ++ [note (x.outcome d.debuggee).1] })

end Call

/-- The debuggee with a log. -/
def NativeDebuggee.audit (host : NativeDebuggee δ) : NativeDebuggee (Audited δ) where
  attach pid := (host.attach pid).noted (.other ·.isOk)
  detach := host.detach.noted (.other ·.isOk)
  waitEvent timeout := (host.waitEvent timeout).noted (.waitEvent ·.toOption)
  resume := host.resume.noted (.other ·.isOk)
  resumeSingleStep := host.resumeSingleStep.noted (.other ·.isOk)
  requestStop := host.requestStop.noted (.other ·.isOk)
  readRegisters tid := (host.readRegisters tid).noted (.other ·.isOk)
  writeRegisters tid block := (host.writeRegisters tid block).noted (.other ·.isOk)
  readMemory addr len := (host.readMemory addr len).noted (.other ·.isOk)
  writeMemory addr data := (host.writeMemory addr data).noted (.other ·.isOk)
  setHwExecBp slot addr := (host.setHwExecBp slot addr).noted (.setHwExecBp slot addr ·.isOk)
  clearHwBp slot := (host.clearHwBp slot).noted (.clearHwBp slot ·.isOk)
  primaryThread d := host.primaryThread d.debuggee

namespace Call

theorem noted_outcome {note : Result α → HostCall} {x : Call δ α} {d : Audited δ} {r : Result α}
    {d' : δ} (h : x.outcome d.debuggee = (r, d')) :
    (x.noted note).outcome d = (r, { debuggee := d', log := d.log ++ [note r] }) := by
  show ((x.outcome d.debuggee).1, (⟨_, _⟩ : Audited δ)) = _
  rw [h]

/-- The call appends some calls to the log, and succeeds exactly if all of them do. -/
def Logs (log : δ → List HostCall) (x : Call δ α) : Prop :=
  ∀ d, ∃ calls, log (x.outcome d).2 = log d ++ calls ∧
    ((∃ a, (x.outcome d).1 = .ok a) ↔ ∀ c ∈ calls, c.ok)

theorem Logs.noted {note : Result α → HostCall} (hnote : ∀ r, (note r).ok = r.isOk)
    (x : Call δ α) : Logs Audited.log (x.noted note) := by
  intro d
  refine ⟨[note (x.outcome d.debuggee).1], rfl, ?_⟩
  rw [List.forall_mem_singleton, hnote]
  show (∃ a, (x.outcome d.debuggee).1 = .ok a) ↔ _
  cases (x.outcome d.debuggee).1 <;> simp [Except.isOk, Except.toBool]

variable {log : δ → List HostCall}

theorem Logs.pure (a : α) : Logs log (Pure.pure a : Call δ α) :=
  fun _ =>
    ⟨[], (List.append_nil _).symm, fun _ _ hc => absurd hc List.not_mem_nil, fun _ => ⟨a, rfl⟩⟩

theorem Logs.bind {x : Call δ α} {f : α → Call δ β} (hx : Logs log x) (hf : ∀ a, Logs log (f a)) :
    Logs log (x >>= f) := by
  intro d
  obtain ⟨calls, hlog, hok⟩ := hx d
  rcases hcall : x.outcome d with ⟨e | a, d'⟩ <;> rw [hcall] at hlog hok
  · rw [outcome_bind_error hcall]
    refine ⟨calls, hlog, ?_⟩
    simpa using hok
  · obtain ⟨calls', hlog', hok'⟩ := hf a d'
    rw [outcome_bind_ok hcall]
    refine ⟨calls ++ calls', ?_, ?_⟩
    · rw [hlog', hlog, List.append_assoc]
    · rw [List.forall_mem_append, hok']
      exact (and_iff_right (hok.mp ⟨a, rfl⟩)).symm

end Call

/-! ## Each call of the debuggee -/

section Audit

variable (host : NativeDebuggee δ)

private theorem ok_other (r : Result α) : (HostCall.other r.isOk).ok = r.isOk :=
  rfl

theorem logs_other (x : Call δ α) :
    Call.Logs Audited.log (x.noted (HostCall.other ·.isOk)) :=
  .noted ok_other x

theorem logs_waitEvent (timeout : ℤ) : Call.Logs Audited.log (host.audit.waitEvent timeout) := by
  apply Call.Logs.noted
  rintro (_ | _) <;> rfl

theorem audit_waitEvent {timeout : ℤ} {d : Audited δ} {r : Result DbgEvent} {d' : δ}
    (h : (host.waitEvent timeout).outcome d.debuggee = (r, d')) :
    (host.audit.waitEvent timeout).outcome d =
      (r, { debuggee := d', log := d.log ++ [.waitEvent r.toOption] }) := by
  show ((host.waitEvent timeout).noted (HostCall.waitEvent ·.toOption)).outcome d = _
  rw [Call.noted_outcome h]

theorem audit_setHwExecBp {slot : ℤ} {addr : U64} {d : Audited δ} {r : Result Unit} {d' : δ}
    (h : (host.setHwExecBp slot addr).outcome d.debuggee = (r, d')) :
    (host.audit.setHwExecBp slot addr).outcome d =
      (r, { debuggee := d', log := d.log ++ [.setHwExecBp slot addr r.isOk] }) := by
  show ((host.setHwExecBp slot addr).noted (HostCall.setHwExecBp slot addr ·.isOk)).outcome d = _
  rw [Call.noted_outcome h]

theorem audit_clearHwBp {slot : ℤ} {d : Audited δ} {r : Result Unit} {d' : δ}
    (h : (host.clearHwBp slot).outcome d.debuggee = (r, d')) :
    (host.audit.clearHwBp slot).outcome d =
      (r, { debuggee := d', log := d.log ++ [.clearHwBp slot r.isOk] }) := by
  show ((host.clearHwBp slot).noted (HostCall.clearHwBp slot ·.isOk)).outcome d = _
  rw [Call.noted_outcome h]

theorem logs_primary : Call.Logs Audited.log host.audit.primary := by
  intro d
  refine ⟨[], (List.append_nil _).symm, ?_⟩
  rw [Call.outcome_primary]
  simp

end Audit

end Irida.Host
