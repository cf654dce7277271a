import Irida.Backend.Backend
import Irida.Host.Context
import Irida.Host.NativeDebuggee
import Std.Data.ExtTreeMap

/-!
# The native backend

`native_backend.cpp`: breakpoints over a debuggee that knows nothing of them.  A
software breakpoint is a byte `0xCC` in the debuggee's memory, and `sw_bp_orig_`
keeps the byte that was there; when `cont` stops at one, the instruction behind it
is stepped over and the byte is planted again.
-/

namespace Irida

open Host

/-- `NativeBackend`, with the state of the host and the process behind `dbg_`. -/
structure NativeBackend (δ : Type) where
  /-- whether `dbg_` holds a debuggee -/
  attached : Bool := false
  debuggee : δ
  swBpOrig : Std.ExtTreeMap U64 Byte := ∅
  nextHwSlot : ℤ := 0
  hwBpSlot : Std.ExtTreeMap U64 ℤ := ∅

namespace NativeBackend

/-- `kSoftwareBpOpcode`. -/
def kSoftwareBpOpcode : Byte := 0xCC

/-- `kRipOffset`. -/
def kRipOffset : ℕ := 16 * 8

/-- `write_rip`. -/
def writeRip (block : Bytes) (rip : U64) : Bytes :=
  if kRipOffset + 8 ≤ block.length then LittleEndian.setSlot 8 block 16 rip.toNat else block

/-- `translate_kind`. -/
def translateKind : DbgEventKind → Backend.StopKind
  | .breakpoint => .breakpoint
  | .singleStep => .singleStep
  | .exception => .signal
  | .exitProcess => .exited
  | .loadModule | .other => .unknown

variable {δ α : Type}

/-- The check at the head of an operation. -/
def requireAttached (op : String) : Call (NativeBackend δ) Unit := fun b =>
  if b.attached then (.ok (), b)
  else (.error ("NativeBackend: " ++ op ++ " called without an attached target"), b)

/-- `dbg_->` in front of a host call. -/
def onDbg (x : Call δ α) : Call (NativeBackend δ) α := fun b =>
  ((x.outcome b.debuggee).1, { b with debuggee := (x.outcome b.debuggee).2 })

section

variable (host : NativeDebuggee δ)

/-- `kAttachDrainTimeoutMs`. -/
def kAttachDrainTimeoutMs : ℤ := 300

/-- The loop of `attach` that resumes after each event, until none arrives in time.  It has not
come to an end if events still arrive after that many rounds. -/
def drainEvents : ℕ → δ → Option (Result Unit × δ)
  | 0, _ => none
  | rounds + 1, d =>
    match (host.waitEvent kAttachDrainTimeoutMs).outcome d with
    | (.error _, d) => some (.ok (), d)
    | (.ok _, d) =>
      match host.resume.outcome d with
      | (.error e, d) => some (.error e, d)
      | (.ok (), d) => drainEvents rounds d

/-- `attach`, if it takes no more than that many events. -/
def attach (rounds : ℕ) (pid : U32) (b : NativeBackend δ) :
    Option (Result Unit × NativeBackend δ) :=
  match (host.attach pid).outcome b.debuggee with
  | (.error e, d) => some (.error e, { b with debuggee := d })
  | (.ok (), d) =>
    match drainEvents host rounds d with
    | none => none
    | some (.error e, d) => some (.error e, { b with attached := true, debuggee := d })
    | some (.ok (), d) =>
      some (Call.outcome (do
        onDbg host.requestStop
        let _ ← onDbg (host.waitEvent (-1))) { b with attached := true, debuggee := d })

/-- `detach`. -/
def detach : Call (NativeBackend δ) Unit := do
  requireAttached "detach"
  fun b => ((host.detach.outcome b.debuggee).1,
    { b with attached := false, debuggee := (host.detach.outcome b.debuggee).2 })

/-- What `translate_stop_and_rearm` does at a planted address: rewind `rip` past
the `0xCC`, restore the original byte, step over the real instruction, and plant
the `0xCC` again.  The event of the step is not looked at. -/
def stepOver (address : U64) (original : Byte) : Call δ Unit := do
  let tid ← host.primary
  let block ← host.readRegisters tid
  host.writeRegisters tid (writeRip block address)
  host.writeMemory address [original]
  host.resumeSingleStep
  let _ ← host.waitEvent (-1)
  host.writeMemory address [kSoftwareBpOpcode]

/-- The part of `translate_stop_and_rearm` before the reply. -/
def rearm (event : DbgEvent) : Call (NativeBackend δ) Unit := fun b =>
  match event.kind, b.swBpOrig[event.address]? with
  | .breakpoint, some original => (onDbg (stepOver host event.address original)).outcome b
  | _, _ => (.ok (), b)

/-- `translate_stop_and_rearm`. -/
def translateStopAndRearm (event : DbgEvent) : Call (NativeBackend δ) Backend.StopReply := do
  rearm host event
  return {
    kind := translateKind event.kind
    signal := event.code.toInt
    pc := event.address }

/-- `cont`. -/
def cont : Call (NativeBackend δ) Backend.StopReply := do
  requireAttached "cont"
  onDbg host.resume
  let event ← onDbg (host.waitEvent (-1))
  translateStopAndRearm host event

/-- `step`.  A breakpoint at `rip` is not stepped over. -/
def step : Call (NativeBackend δ) Backend.StopReply := do
  requireAttached "step"
  onDbg host.resumeSingleStep
  let event ← onDbg (host.waitEvent (-1))
  return { kind := .singleStep, pc := event.address }

/-- `request_stop`. -/
def requestStop : Call (NativeBackend δ) Unit := do
  requireAttached "request_stop"
  onDbg host.requestStop

/-- `read_registers`. -/
def readRegisters : Call (NativeBackend δ) Bytes := do
  requireAttached "read_registers"
  let tid ← onDbg host.primary
  onDbg (host.readRegisters tid)

/-- `write_registers`. -/
def writeRegisters (block : Bytes) : Call (NativeBackend δ) Unit := do
  requireAttached "write_registers"
  let tid ← onDbg host.primary
  onDbg (host.writeRegisters tid block)

/-- `read_memory`. -/
def readMemory (addr len : U64) : Call (NativeBackend δ) Bytes := do
  requireAttached "read_memory"
  onDbg (host.readMemory addr len)

/-- `write_memory`. -/
def writeMemory (addr : U64) (data : Bytes) : Call (NativeBackend δ) Unit := do
  requireAttached "write_memory"
  onDbg (host.writeMemory addr data)

/-- The case `SoftwareExec` of `set_breakpoint`. -/
def setSoftware (addr : U64) : Call (NativeBackend δ) Unit := do
  let original ← onDbg (host.readMemory addr 1)
  modify fun b => { b with swBpOrig := b.swBpOrig.insert addr (original.headD 0) }
  onDbg (host.writeMemory addr [kSoftwareBpOpcode])

/-- The case `HardwareExec` of `set_breakpoint`.  The slot is used up even if the
host call fails. -/
def setHardware (addr : U64) : Call (NativeBackend δ) Unit := fun b =>
  if b.nextHwSlot > 3 then (.error "NativeBackend: no free hardware breakpoint slot", b)
  else Call.outcome (do
    modify fun b => { b with nextHwSlot := b.nextHwSlot + 1 }
    onDbg (host.setHwExecBp b.nextHwSlot addr)
    modify fun b' => { b' with hwBpSlot := b'.hwBpSlot.insert addr b.nextHwSlot }) b

/-- `set_breakpoint`. -/
def setBreakpoint (kind : Backend.BpKind) (addr : U64) (_size : ℤ) :
    Call (NativeBackend δ) Unit := do
  requireAttached "set_breakpoint"
  match kind with
  | .softwareExec => setSoftware host addr
  | .hardwareExec => setHardware host addr
  | .writeWatch | .readWatch | .accessWatch => throw "watchpoint not implemented"

/-- The case `SoftwareExec` of `remove_breakpoint`. -/
def removeSoftware (addr : U64) : Call (NativeBackend δ) Unit := fun b =>
  match b.swBpOrig[addr]? with
  | none => (.error "NativeBackend: no software breakpoint planted at address", b)
  | some original => Call.outcome (do
    onDbg (host.writeMemory addr [original])
    modify fun b => { b with swBpOrig := b.swBpOrig.erase addr }) b

/-- The case `HardwareExec` of `remove_breakpoint`. -/
def removeHardware (addr : U64) : Call (NativeBackend δ) Unit := fun b =>
  match b.hwBpSlot[addr]? with
  | none => (.error "NativeBackend: no hardware breakpoint at address", b)
  | some slot => Call.outcome (do
    onDbg (host.clearHwBp slot)
    modify fun b => { b with hwBpSlot := b.hwBpSlot.erase addr }) b

/-- `remove_breakpoint`. -/
def removeBreakpoint (kind : Backend.BpKind) (addr : U64) (_size : ℤ) :
    Call (NativeBackend δ) Unit := do
  requireAttached "remove_breakpoint"
  match kind with
  | .softwareExec => removeSoftware host addr
  | .hardwareExec => removeHardware host addr
  | .writeWatch | .readWatch | .accessWatch => throw "watchpoint not implemented"

/-- `NativeBackend` as a backend. -/
def ops : Backend (NativeBackend δ) where
  cont := (cont host).outcome
  step := (step host).outcome
  readRegisters := (readRegisters host).outcome
  readMemory addr len := (readMemory host addr len).outcome

end

/-! ## Outcomes -/

section Outcome

variable {host : NativeDebuggee δ} {b b' : NativeBackend δ} {addr : U64}

/-- The saved bytes, by address. -/
def saved (b : NativeBackend δ) (addr : U64) : Option Byte :=
  b.swBpOrig[addr]?

theorem saved_eq_none (h : b.swBpOrig = ∅) (a : U64) : b.saved a = none := by
  simp [saved, h]

theorem saved_insert (b : NativeBackend δ) (addr : U64) (original : Byte) :
    saved { b with swBpOrig := b.swBpOrig.insert addr original } =
      Function.update b.saved addr (some original) := by
  funext x
  by_cases hx : x = addr
  · subst hx
    simp [saved]
  · have hne : addr ≠ x := Ne.symm hx
    simp [saved, Function.update_of_ne hx, Std.ExtTreeMap.getElem?_insert, hne]

theorem saved_erase (b : NativeBackend δ) (addr : U64) :
    saved { b with swBpOrig := b.swBpOrig.erase addr } =
      Function.update b.saved addr none := by
  funext x
  by_cases hx : x = addr
  · subst hx
    simp [saved]
  · have hne : addr ≠ x := Ne.symm hx
    simp [saved, Function.update_of_ne hx, Std.ExtTreeMap.getElem?_erase, hne]

theorem requireAttached_eq_ok_iff {op : String} :
    (requireAttached op).outcome b = (.ok (), b') ↔ b.attached = true ∧ b = b' := by
  by_cases hattached : b.attached = true
  · simp [requireAttached, Call.outcome, hattached]
  · simp [requireAttached, Call.outcome, hattached]

theorem requireAttached_outcome (op : String) (h : b.attached = true) :
    (requireAttached op).outcome b = (.ok (), b) :=
  requireAttached_eq_ok_iff.mpr ⟨h, rfl⟩

theorem requireAttached_outcome_error (op : String) (h : b.attached = false) :
    (requireAttached op).outcome b =
      (.error ("NativeBackend: " ++ op ++ " called without an attached target"), b) := by
  simp [requireAttached, Call.outcome, h]

theorem attached_of_eq_ok {op : String} {x : Call (NativeBackend δ) α} {a : α}
    (h : (requireAttached op >>= fun _ => x).outcome b = (.ok a, b')) :
    b.attached = true ∧ x.outcome b = (.ok a, b') := by
  obtain ⟨⟨⟩, b₁, hrequire, hx⟩ := Call.outcome_bind_eq_ok h
  obtain ⟨hattached, rfl⟩ := requireAttached_eq_ok_iff.mp hrequire
  exact ⟨hattached, hx⟩

theorem onDbg_outcome (x : Call δ α) (b : NativeBackend δ) :
    (onDbg x).outcome b =
      ((x.outcome b.debuggee).1, { b with debuggee := (x.outcome b.debuggee).2 }) :=
  rfl

theorem onDbg_eq_ok_iff {x : Call δ α} {a : α} :
    (onDbg x).outcome b = (.ok a, b') ↔
      ∃ d, x.outcome b.debuggee = (.ok a, d) ∧ b' = { b with debuggee := d } := by
  rw [onDbg_outcome]
  rcases x.outcome b.debuggee with ⟨r, d⟩
  constructor
  · rintro h
    obtain ⟨rfl, rfl⟩ := Prod.mk.inj h
    exact ⟨d, rfl, rfl⟩
  · rintro ⟨d', h, rfl⟩
    obtain ⟨rfl, rfl⟩ := Prod.mk.inj h
    rfl

theorem onDbg_outcome_ok {x : Call δ α} {a : α} {d : δ}
    (h : x.outcome b.debuggee = (.ok a, d)) :
    (onDbg x).outcome b = (.ok a, { b with debuggee := d }) :=
  onDbg_eq_ok_iff.mpr ⟨d, h, rfl⟩

theorem onDbg_outcome_error {x : Call δ α} {e : String} {d : δ}
    (h : x.outcome b.debuggee = (.error e, d)) :
    (onDbg x).outcome b = (.error e, { b with debuggee := d }) := by
  rw [onDbg_outcome, h]

/-! ### Setting and removing -/

/-- The byte cannot be read, or it is saved and the `0xCC` is written, with or without success. -/
theorem setSoftware_cases (host : NativeDebuggee δ) (b : NativeBackend δ) (addr : U64) :
    (∃ e d, (host.readMemory addr 1).outcome b.debuggee = (.error e, d) ∧
        ((setSoftware host addr).outcome b).2 = { b with debuggee := d }) ∨
      ∃ bytes d, (host.readMemory addr 1).outcome b.debuggee = (.ok bytes, d) ∧
        ((setSoftware host addr).outcome b).2 =
          { b with
            debuggee := ((host.writeMemory addr [kSoftwareBpOpcode]).outcome d).2
            swBpOrig := b.swBpOrig.insert addr (bytes.headD 0) } := by
  rcases hread : (host.readMemory addr 1).outcome b.debuggee with ⟨e | bytes, d⟩
  · rw [setSoftware, Call.outcome_bind_error (onDbg_outcome_error hread)]
    exact Or.inl ⟨e, d, rfl, rfl⟩
  · rw [setSoftware, Call.outcome_bind_ok (onDbg_outcome_ok hread),
      Call.outcome_bind_ok (Call.outcome_modify _ _), onDbg_outcome]
    exact Or.inr ⟨bytes, d, rfl, rfl⟩

/-- Nothing is planted there, or the saved byte is written back and forgotten if that succeeds. -/
theorem removeSoftware_cases (host : NativeDebuggee δ) (b : NativeBackend δ) (addr : U64) :
    ((removeSoftware host addr).outcome b).2 = b ∨
      ∃ original r d, b.saved addr = some original ∧
        (host.writeMemory addr [original]).outcome b.debuggee = (r, d) ∧
        ((removeSoftware host addr).outcome b).2 =
          { b with
            debuggee := d
            swBpOrig := if r.isOk then b.swBpOrig.erase addr else b.swBpOrig } := by
  show (removeSoftware host addr b).2 = b ∨
    ∃ original r d, _ ∧ _ ∧ (removeSoftware host addr b).2 = _
  unfold removeSoftware
  split
  case h_1 => exact Or.inl rfl
  case h_2 original hsaved =>
    rcases hcall : (host.writeMemory addr [original]).outcome b.debuggee with ⟨r, d⟩
    refine Or.inr ⟨original, r, d, hsaved, hcall, ?_⟩
    cases r with
    | error e =>
        rw [Call.outcome_bind_error (onDbg_outcome_error hcall)]
        rfl
    | ok _ =>
        rw [Call.outcome_bind_ok (onDbg_outcome_ok hcall)]
        rfl

/-- There is no slot left, or the host is asked for the next one. -/
theorem setHardware_cases (host : NativeDebuggee δ) (b : NativeBackend δ) (addr : U64) :
    (3 < b.nextHwSlot ∧ (setHardware host addr).outcome b =
        (.error "NativeBackend: no free hardware breakpoint slot", b)) ∨
      b.nextHwSlot ≤ 3 ∧ ∃ r d, (host.setHwExecBp b.nextHwSlot addr).outcome b.debuggee = (r, d) ∧
        ((setHardware host addr).outcome b).2 =
          { b with
            debuggee := d
            nextHwSlot := b.nextHwSlot + 1
            hwBpSlot := if r.isOk then b.hwBpSlot.insert addr b.nextHwSlot else b.hwBpSlot } := by
  show (_ ∧ setHardware host addr b = _) ∨ _ ∧ ∃ r d, _ ∧ (setHardware host addr b).2 = _
  unfold setHardware
  split
  case isTrue hfull => exact Or.inl ⟨hfull, rfl⟩
  case isFalse hfree =>
    refine Or.inr ⟨by omega, ?_⟩
    rcases hcall : (host.setHwExecBp b.nextHwSlot addr).outcome b.debuggee with ⟨r, d⟩
    refine ⟨r, d, rfl, ?_⟩
    rw [Call.outcome_bind_ok (Call.outcome_modify _ _)]
    cases r with
    | error e =>
        rw [Call.outcome_bind_error
          (onDbg_outcome_error (b := { b with nextHwSlot := b.nextHwSlot + 1 }) hcall)]
        rfl
    | ok _ =>
        rw [Call.outcome_bind_ok
          (onDbg_outcome_ok (b := { b with nextHwSlot := b.nextHwSlot + 1 }) hcall)]
        rfl

/-- No breakpoint is there, or the host is asked to clear its slot. -/
theorem removeHardware_cases (host : NativeDebuggee δ) (b : NativeBackend δ) (addr : U64) :
    ((removeHardware host addr).outcome b).2 = b ∨
      ∃ slot r d, b.hwBpSlot[addr]? = some slot ∧
        (host.clearHwBp slot).outcome b.debuggee = (r, d) ∧
        ((removeHardware host addr).outcome b).2 =
          { b with
            debuggee := d
            hwBpSlot := if r.isOk then b.hwBpSlot.erase addr else b.hwBpSlot } := by
  show (removeHardware host addr b).2 = b ∨ ∃ slot r d, _ ∧ _ ∧ (removeHardware host addr b).2 = _
  unfold removeHardware
  split
  case h_1 => exact Or.inl rfl
  case h_2 slot hslot =>
    rcases hcall : (host.clearHwBp slot).outcome b.debuggee with ⟨r, d⟩
    refine Or.inr ⟨slot, r, d, hslot, hcall, ?_⟩
    cases r with
    | error e =>
        rw [Call.outcome_bind_error (onDbg_outcome_error hcall)]
        rfl
    | ok _ =>
        rw [Call.outcome_bind_ok (onDbg_outcome_ok hcall)]
        rfl

/-- A breakpoint is set: the byte that was read is saved, and the `0xCC` written. -/
theorem setBreakpoint_software_eq_ok_iff {size : ℤ} :
    (setBreakpoint host .softwareExec addr size).outcome b = (.ok (), b') ↔
      b.attached = true ∧ ∃ original d d',
        (host.readMemory addr 1).outcome b.debuggee = (.ok original, d) ∧
        (host.writeMemory addr [kSoftwareBpOpcode]).outcome d = (.ok (), d') ∧
        b' = { b with
          debuggee := d'
          swBpOrig := b.swBpOrig.insert addr (original.headD 0) } := by
  constructor
  · intro h
    obtain ⟨hattached, h⟩ := attached_of_eq_ok h
    obtain ⟨original, b₂, hcall, h⟩ := Call.outcome_bind_eq_ok h
    obtain ⟨d, hread, rfl⟩ := onDbg_eq_ok_iff.mp hcall
    obtain ⟨⟨⟩, b₃, hmodify, h⟩ := Call.outcome_bind_eq_ok h
    obtain rfl : _ = b₃ := (Prod.mk.inj hmodify).2
    obtain ⟨d', hwrite, rfl⟩ := onDbg_eq_ok_iff.mp h
    exact ⟨hattached, original, d, d', hread, hwrite, rfl⟩
  · rintro ⟨hattached, original, d, d', hread, hwrite, rfl⟩
    rw [setBreakpoint, Call.outcome_bind_ok (requireAttached_outcome _ hattached)]
    show (setSoftware host addr).outcome b = _
    rw [setSoftware, Call.outcome_bind_ok (onDbg_outcome_ok hread),
      Call.outcome_bind_ok (Call.outcome_modify _ _)]
    exact onDbg_outcome_ok hwrite

/-- A breakpoint is removed: the saved byte is written back. -/
theorem removeBreakpoint_software_eq_ok_iff {size : ℤ} :
    (removeBreakpoint host .softwareExec addr size).outcome b = (.ok (), b') ↔
      b.attached = true ∧ ∃ original d,
        b.saved addr = some original ∧
        (host.writeMemory addr [original]).outcome b.debuggee = (.ok (), d) ∧
        b' = { b with debuggee := d, swBpOrig := b.swBpOrig.erase addr } := by
  constructor
  · intro h
    obtain ⟨hattached, h⟩ := attached_of_eq_ok h
    replace h : removeSoftware host addr b = _ := h
    unfold removeSoftware at h
    split at h
    case h_1 => cases h
    case h_2 original hsaved =>
      obtain ⟨⟨⟩, b₂, hcall, h⟩ := Call.outcome_bind_eq_ok h
      obtain ⟨d, hwrite, rfl⟩ := onDbg_eq_ok_iff.mp hcall
      obtain rfl : _ = b' := (Prod.mk.inj h).2
      exact ⟨hattached, original, d, hsaved, hwrite, rfl⟩
  · rintro ⟨hattached, original, d, hsaved, hwrite, rfl⟩
    rw [removeBreakpoint, Call.outcome_bind_ok (requireAttached_outcome _ hattached)]
    show removeSoftware host addr b = _
    unfold removeSoftware
    rw [show b.swBpOrig[addr]? = some original from hsaved]
    show Call.outcome _ b = _
    rw [Call.outcome_bind_ok (onDbg_outcome_ok hwrite)]
    rfl

/-- Removing what is not there changes nothing. -/
theorem removeBreakpoint_software_missing {size : ℤ} (h : b.saved addr = none) :
    ((removeBreakpoint host .softwareExec addr size).outcome b).2 = b := by
  have hmissing : (removeSoftware host addr).outcome b =
      (.error "NativeBackend: no software breakpoint planted at address", b) := by
    unfold Call.outcome removeSoftware
    rw [show b.swBpOrig[addr]? = none from h]
  rw [removeBreakpoint, Call.outcome_bind]
  by_cases hattached : b.attached = true
  · rw [requireAttached_outcome _ hattached]
    simp only [hmissing]
  · rw [requireAttached_outcome_error _ (eq_false_of_ne_true hattached)]

/-! ### Running -/

theorem translateStopAndRearm_state (event : DbgEvent) :
    ((translateStopAndRearm host event).outcome b).2 = ((rearm host event).outcome b).2 := by
  rw [translateStopAndRearm, Call.outcome_bind]
  rcases (rearm host event).outcome b with ⟨_ | _, _⟩ <;> rfl

/-- Where nothing is planted there is nothing to step over. -/
theorem rearm_unplanted {event : DbgEvent}
    (h : event.kind ≠ .breakpoint ∨ b.saved event.address = none) :
    (rearm host event).outcome b = (.ok (), b) := by
  show rearm host event b = _
  unfold rearm
  split
  case h_1 original hkind hsaved => simp [saved, hkind, hsaved] at h
  case h_2 => rfl

theorem translateStopAndRearm_unplanted {event : DbgEvent}
    (h : event.kind ≠ .breakpoint ∨ b.saved event.address = none) :
    ((translateStopAndRearm host event).outcome b).2 = b := by
  rw [translateStopAndRearm_state, rearm_unplanted h]

/-- What is behind a stop at a planted address is stepped over. -/
theorem rearm_planted {event : DbgEvent} {original : Byte} (hkind : event.kind = .breakpoint)
    (hsaved : b.saved event.address = some original) :
    (rearm host event).outcome b = (onDbg (stepOver host event.address original)).outcome b := by
  have hsaved : b.swBpOrig[event.address]? = some original := hsaved
  show rearm host event b = _
  unfold rearm
  rw [hkind, hsaved]

theorem translateStopAndRearm_planted {event : DbgEvent} {original : Byte} {d : δ}
    (hkind : event.kind = .breakpoint) (hsaved : b.saved event.address = some original)
    (h : (stepOver host event.address original).outcome b.debuggee = (.ok (), d)) :
    ((translateStopAndRearm host event).outcome b).2 = { b with debuggee := d } := by
  rw [translateStopAndRearm_state, rearm_planted hkind hsaved, onDbg_outcome_ok h]

/-- What the reply to a stop says is taken from the event alone. -/
theorem translateStopAndRearm_eq_ok {event : DbgEvent} {reply : Backend.StopReply}
    (h : (translateStopAndRearm host event).outcome b = (.ok reply, b')) :
    (rearm host event).outcome b = (.ok (), b') ∧ reply.kind = translateKind event.kind ∧
      reply.pc = event.address := by
  obtain ⟨⟨⟩, b₁, hrearm, hreply⟩ := Call.outcome_bind_eq_ok h
  obtain ⟨hok, rfl⟩ := Prod.mk.inj hreply
  obtain rfl := Except.ok.inj hok
  exact ⟨hrearm, rfl, rfl⟩

/-- A `cont` that returns has resumed the debuggee and waited for one event. -/
theorem cont_eq_ok {reply : Backend.StopReply} (h : (cont host).outcome b = (.ok reply, b')) :
    b.attached = true ∧ ∃ event d d', host.resume.outcome b.debuggee = (.ok (), d) ∧
      (host.waitEvent (-1)).outcome d = (.ok event, d') ∧
      (translateStopAndRearm host event).outcome { b with debuggee := d' } = (.ok reply, b') := by
  obtain ⟨hattached, h⟩ := attached_of_eq_ok h
  obtain ⟨⟨⟩, b₂, hcall, h⟩ := Call.outcome_bind_eq_ok h
  obtain ⟨d, hresume, rfl⟩ := onDbg_eq_ok_iff.mp hcall
  obtain ⟨event, b₃, hcall, h⟩ := Call.outcome_bind_eq_ok h
  obtain ⟨d', hwait, rfl⟩ := onDbg_eq_ok_iff.mp hcall
  exact ⟨hattached, event, d, d', hresume, hwait, h⟩

/-- `cont` when the host reports a stop. -/
theorem cont_outcome {event : DbgEvent} {d d' : δ} (hattached : b.attached = true)
    (hresume : host.resume.outcome b.debuggee = (.ok (), d))
    (hwait : (host.waitEvent (-1)).outcome d = (.ok event, d')) :
    (cont host).outcome b =
      (translateStopAndRearm host event).outcome { b with debuggee := d' } := by
  rw [cont, Call.outcome_bind_ok (requireAttached_outcome _ hattached),
    Call.outcome_bind_ok (onDbg_outcome_ok hresume)]
  exact Call.outcome_bind_ok (onDbg_outcome_ok hwait) _

/-- `cont` when the wait fails. -/
theorem cont_outcome_waiting {e : String} {d d' : δ} (hattached : b.attached = true)
    (hresume : host.resume.outcome b.debuggee = (.ok (), d))
    (hwait : (host.waitEvent (-1)).outcome d = (.error e, d')) :
    (cont host).outcome b = (.error e, { b with debuggee := d' }) := by
  rw [cont, Call.outcome_bind_ok (requireAttached_outcome _ hattached),
    Call.outcome_bind_ok (onDbg_outcome_ok hresume)]
  exact Call.outcome_bind_error (onDbg_outcome_error hwait) _

theorem cont_outcome_error {e : String} {d : δ} (hattached : b.attached = true)
    (hresume : host.resume.outcome b.debuggee = (.error e, d)) :
    (cont host).outcome b = (.error e, { b with debuggee := d }) := by
  rw [cont, Call.outcome_bind_ok (requireAttached_outcome _ hattached)]
  exact Call.outcome_bind_error (onDbg_outcome_error hresume) _

theorem step_outcome_error {e : String} {d : δ} (hattached : b.attached = true)
    (hresume : host.resumeSingleStep.outcome b.debuggee = (.error e, d)) :
    (step host).outcome b = (.error e, { b with debuggee := d }) := by
  rw [step, Call.outcome_bind_ok (requireAttached_outcome _ hattached)]
  exact Call.outcome_bind_error (onDbg_outcome_error hresume) _

/-- `step` when the host reports a stop. -/
theorem step_outcome {event : DbgEvent} {d d' : δ} (hattached : b.attached = true)
    (hresume : host.resumeSingleStep.outcome b.debuggee = (.ok (), d))
    (hwait : (host.waitEvent (-1)).outcome d = (.ok event, d')) :
    (step host).outcome b =
      (.ok { kind := .singleStep, pc := event.address }, { b with debuggee := d' }) := by
  rw [step, Call.outcome_bind_ok (requireAttached_outcome _ hattached),
    Call.outcome_bind_ok (onDbg_outcome_ok hresume)]
  exact Call.outcome_bind_ok (onDbg_outcome_ok hwait) _

end Outcome

end NativeBackend

end Irida
