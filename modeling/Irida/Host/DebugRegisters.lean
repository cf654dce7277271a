import Irida.Host.Audit
import Mathlib.Tactic.IntervalCases

/-!
# Hardware breakpoints in the debug registers

`set_hw_exec_bp` and `clear_hw_bp` of `native_debuggee.cpp`, over the calls of the operating system
on a thread.  Both rewrite the debug registers of the primary thread: `dr0` to `dr3` hold the
addresses of the four slots, and `dr7` has a bit for each slot that enables it and four bits for
its condition and length.

Which slots have been enabled can be read off the calls (`armed`), and the registers show it
(`Reflects`).
-/

namespace Irida.Host

/-- What `CONTEXT_DEBUG_REGISTERS` selects of a `CONTEXT`. -/
structure DebugRegisters where
  dr0 : U64 := 0
  dr1 : U64 := 0
  dr2 : U64 := 0
  dr3 : U64 := 0
  dr6 : U64 := 0
  dr7 : U64 := 0
  deriving DecidableEq, Repr

/-- The local bit of `dr7` for a slot. -/
def enableBit (slot : ℤ) : U64 :=
  1 <<< (2 * slot.toNat)

/-- The condition and the length of a slot in `dr7`. -/
def rwLenMask (slot : ℤ) : U64 :=
  0xF <<< (16 + 4 * slot.toNat)

namespace DebugRegisters

/-- The address of a slot. -/
def address (r : DebugRegisters) : ℤ → U64
  | 0 => r.dr0
  | 1 => r.dr1
  | 2 => r.dr2
  | _ => r.dr3

/-- The registers with another address for a slot. -/
def setAddress (r : DebugRegisters) (addr : U64) : ℤ → DebugRegisters
  | 0 => { r with dr0 := addr }
  | 1 => { r with dr1 := addr }
  | 2 => { r with dr2 := addr }
  | 3 => { r with dr3 := addr }
  | _ => r

/-- What `set_hw_exec_bp` does to the registers: condition and length zero are for one byte that is
executed. -/
def arm (slot : ℤ) (addr : U64) (r : DebugRegisters) : DebugRegisters :=
  { r.setAddress addr slot with dr7 := r.dr7 &&& ~~~rwLenMask slot ||| enableBit slot }

/-- What `clear_hw_bp` does to the registers. -/
def disarm (slot : ℤ) (r : DebugRegisters) : DebugRegisters :=
  { r.setAddress 0 slot with dr7 := r.dr7 &&& ~~~enableBit slot }

/-- The slot is enabled. -/
def Enabled (r : DebugRegisters) (slot : ℤ) : Prop :=
  r.dr7 &&& enableBit slot ≠ 0#64

/-- The slot stops the thread when it executes the byte at the address. -/
structure Armed (r : DebugRegisters) (slot : ℤ) (addr : U64) : Prop where
  enabled : r.Enabled slot
  address : r.address slot = addr
  execute : r.dr7 &&& rwLenMask slot = 0#64

end DebugRegisters

/-- The numbers of the four slots. -/
def IsSlot (slot : ℤ) : Prop :=
  0 ≤ slot ∧ slot ≤ 3

/-! ## One slot and the others -/

theorem masked (x : U64) {keep put mask : U64} (hkeep : keep &&& mask = mask)
    (hput : put &&& mask = 0#64) : (x &&& keep ||| put) &&& mask = x &&& mask := by
  calc (x &&& keep ||| put) &&& mask
      = (x &&& keep) &&& mask ||| put &&& mask := BitVec.and_or_distrib_right
    _ = x &&& mask := by rw [BitVec.and_assoc, hkeep, hput, BitVec.or_zero]

section Slots

variable {slot other : ℤ} {addr addr' : U64} {r : DebugRegisters}

theorem enableBit_apart (hslot : IsSlot slot) (hother : IsSlot other) (hne : other ≠ slot) :
    enableBit slot &&& enableBit other = 0#64 ∧
      ~~~enableBit slot &&& enableBit other = enableBit other ∧
      ~~~rwLenMask slot &&& enableBit other = enableBit other := by
  obtain ⟨hslot, hslot'⟩ := hslot
  obtain ⟨hother, hother'⟩ := hother
  interval_cases slot <;> interval_cases other <;> first | contradiction | decide

theorem rwLenMask_apart (hslot : IsSlot slot) (hother : IsSlot other) (hne : other ≠ slot) :
    enableBit slot &&& rwLenMask other = 0#64 ∧
      ~~~enableBit slot &&& rwLenMask other = rwLenMask other ∧
      ~~~rwLenMask slot &&& rwLenMask other = rwLenMask other := by
  obtain ⟨hslot, hslot'⟩ := hslot
  obtain ⟨hother, hother'⟩ := hother
  interval_cases slot <;> interval_cases other <;> first | contradiction | decide

theorem enableBit_self (hslot : IsSlot slot) :
    enableBit slot ≠ 0#64 ∧ enableBit slot &&& rwLenMask slot = 0#64 := by
  obtain ⟨hslot, hslot'⟩ := hslot
  interval_cases slot <;> decide

namespace DebugRegisters

theorem address_setAddress (hslot : IsSlot slot) :
    (r.setAddress addr slot).address slot = addr := by
  obtain ⟨hslot, hslot'⟩ := hslot
  interval_cases slot <;> rfl

theorem address_setAddress_of_ne (hslot : IsSlot slot) (hother : IsSlot other)
    (hne : other ≠ slot) : (r.setAddress addr slot).address other = r.address other := by
  obtain ⟨hslot, hslot'⟩ := hslot
  obtain ⟨hother, hother'⟩ := hother
  interval_cases slot <;> interval_cases other <;> first | contradiction | rfl

theorem armed_arm (hslot : IsSlot slot) : (r.arm slot addr).Armed slot addr where
  enabled := by
    have hbits : (r.arm slot addr).dr7 &&& enableBit slot =
        (r.dr7 &&& ~~~rwLenMask slot &&& enableBit slot) ||| enableBit slot := by
      rw [arm, BitVec.and_or_distrib_right, BitVec.and_self]
    rw [Enabled, hbits, Ne, BitVec.or_eq_zero_iff]
    exact fun h => (enableBit_self hslot).1 h.2
  address := address_setAddress hslot
  execute := by
    rw [arm, BitVec.and_or_distrib_right, (enableBit_self hslot).2, BitVec.or_zero,
      BitVec.and_assoc]
    simp

theorem enabled_arm_of_ne (hslot : IsSlot slot) (hother : IsSlot other) (hne : other ≠ slot) :
    (r.arm slot addr).Enabled other ↔ r.Enabled other := by
  obtain ⟨hput, -, hkeep⟩ := enableBit_apart hslot hother hne
  rw [Enabled, arm, masked _ hkeep hput]
  rfl

theorem Armed.arm (h : r.Armed other addr') (hslot : IsSlot slot) (hother : IsSlot other)
    (hne : other ≠ slot) : (r.arm slot addr).Armed other addr' where
  enabled := (enabled_arm_of_ne hslot hother hne).mpr h.enabled
  address := (address_setAddress_of_ne hslot hother hne).trans h.address
  execute := by
    obtain ⟨hput, -, hkeep⟩ := rwLenMask_apart hslot hother hne
    rw [DebugRegisters.arm, masked _ hkeep hput]
    exact h.execute

theorem not_enabled_disarm (slot : ℤ) (r : DebugRegisters) : ¬ (r.disarm slot).Enabled slot := by
  rw [Enabled, disarm, BitVec.and_assoc]
  simp

theorem enabled_disarm_of_ne (hslot : IsSlot slot) (hother : IsSlot other) (hne : other ≠ slot) :
    (r.disarm slot).Enabled other ↔ r.Enabled other := by
  obtain ⟨-, hkeep, -⟩ := enableBit_apart hslot hother hne
  rw [Enabled, disarm, BitVec.and_assoc, hkeep]
  rfl

theorem Armed.disarm (h : r.Armed other addr') (hslot : IsSlot slot) (hother : IsSlot other)
    (hne : other ≠ slot) : (r.disarm slot).Armed other addr' where
  enabled := (enabled_disarm_of_ne hslot hother hne).mpr h.enabled
  address := (address_setAddress_of_ne hslot hother hne).trans h.address
  execute := by
    obtain ⟨-, hkeep, -⟩ := rwLenMask_apart hslot hother hne
    rw [DebugRegisters.disarm, BitVec.and_assoc, hkeep]
    exact h.execute

end DebugRegisters

end Slots

/-! ## The calls on a thread -/

/-- The calls of the operating system on a thread, whose handle is named by its id. -/
structure ThreadApi (σ : Type) where
  openThread : U32 → Call σ Unit
  getThreadContext : U32 → Call σ DebugRegisters
  setThreadContext : U32 → DebugRegisters → Call σ Unit

/-- The registers of the threads are read and written, and a call that fails leaves them. -/
structure ThreadApi.Works {σ : Type} (api : ThreadApi σ) (regs : σ → U32 → DebugRegisters) :
    Prop where
  openThread : ∀ tid, Call.Keeps (fun s s' => regs s' = regs s) (api.openThread tid)
  getThreadContext : ∀ tid, Call.Keeps (fun s s' => regs s' = regs s) (api.getThreadContext tid)
  getThreadContext_ok : ∀ {tid : U32} {s s' : σ} {r : DebugRegisters},
    (api.getThreadContext tid).outcome s = (.ok r, s') → r = regs s tid
  setThreadContext_ok : ∀ {tid : U32} {s s' : σ} {r : DebugRegisters},
    (api.setThreadContext tid r).outcome s = (.ok (), s') →
      regs s' = Function.update (regs s) tid r
  setThreadContext_error : ∀ {tid : U32} {s s' : σ} {r : DebugRegisters} {e : String},
    (api.setThreadContext tid r).outcome s = (.error e, s') → regs s' = regs s

/-- The common part of the two functions: the context of a thread is read and written back. -/
def ThreadApi.edit {σ : Type} (api : ThreadApi σ) (tid : U32)
    (change : DebugRegisters → DebugRegisters) : Call σ Unit := do
  api.openThread tid
  let ctx ← api.getThreadContext tid
  api.setThreadContext tid (change ctx)

/-- What the debuggee keeps of the process, over the state of the operating system. -/
structure Impl (σ : Type) where
  os : σ
  attached : Bool := true
  primaryTid : U32
  deriving DecidableEq

namespace Impl

variable {σ : Type}

/-- The context of the primary thread is edited. -/
def editPrimary (api : ThreadApi σ) (change : DebugRegisters → DebugRegisters) :
    Call (Impl σ) Unit := fun d =>
  (((api.edit d.primaryTid change).outcome d.os).1,
    { d with os := ((api.edit d.primaryTid change).outcome d.os).2 })

/-- `set_hw_exec_bp`. -/
def setHwExecBp (api : ThreadApi σ) (slot : ℤ) (addr : U64) : Call (Impl σ) Unit := fun d =>
  if slot < 0 ∨ slot > 3 then (.error "set_hw_exec_bp: slot out of range (0-3)", d)
  else if d.attached = false then (.error "set_hw_exec_bp: not attached", d)
  else (editPrimary api (DebugRegisters.arm slot addr)).outcome d

/-- `clear_hw_bp`. -/
def clearHwBp (api : ThreadApi σ) (slot : ℤ) : Call (Impl σ) Unit := fun d =>
  if slot < 0 ∨ slot > 3 then (.error "clear_hw_bp: slot out of range (0-3)", d)
  else if d.attached = false then (.error "clear_hw_bp: not attached", d)
  else (editPrimary api (DebugRegisters.disarm slot)).outcome d

/-- The debug registers of the primary thread. -/
def registers (regs : σ → U32 → DebugRegisters) (d : Impl σ) : DebugRegisters :=
  regs d.os d.primaryTid

end Impl

/-- The debuggee with the two functions. -/
def NativeDebuggee.withDebugRegisters {σ : Type} (host : NativeDebuggee (Impl σ))
    (api : ThreadApi σ) : NativeDebuggee (Impl σ) :=
  { host with
    setHwExecBp := Impl.setHwExecBp api
    clearHwBp := Impl.clearHwBp api }

/-! ## Which slots are enabled -/

/-- What a call changes about the slots that were enabled for an address. -/
def HostCall.rearms (armed : ℤ → Option U64) : HostCall → ℤ → Option U64
  | .setHwExecBp slot addr true => Function.update armed slot (some addr)
  | .clearHwBp slot true => Function.update armed slot none
  | _ => armed

/-- The slots that these calls have enabled, with their addresses. -/
def armed (log : List HostCall) : ℤ → Option U64 :=
  log.foldl HostCall.rearms fun _ => none

@[simp] theorem armed_concat (log : List HostCall) (c : HostCall) :
    armed (log ++ [c]) = c.rearms (armed log) := by
  simp [armed]

/-- The registers show the slots that were enabled, and no other ones that were not enabled at the
start. -/
structure Reflects (start now : DebugRegisters) (slots : ℤ → Option U64) : Prop where
  shown : ∀ {slot addr}, slots slot = some addr → IsSlot slot ∧ now.Armed slot addr
  spare : ∀ {slot}, IsSlot slot → slots slot = none → now.Enabled slot → start.Enabled slot

section Reflects

variable {σ : Type} {api : ThreadApi σ} {regs : σ → U32 → DebugRegisters}
  {start now : DebugRegisters} {slots : ℤ → Option U64} {d d' : Impl σ} {slot : ℤ} {addr : U64}
  {r : Result Unit}

/-- The registers are changed if all calls succeed, and else stay as they are. -/
theorem edit_spec (hapi : api.Works regs) {tid : U32} {change : DebugRegisters → DebugRegisters}
    {s s' : σ} (h : (api.edit tid change).outcome s = (r, s')) :
    r = .ok () ∧ regs s' tid = change (regs s tid) ∨ (∃ e, r = .error e) ∧ regs s' = regs s := by
  unfold ThreadApi.edit at h
  rcases hopen : (api.openThread tid).outcome s with ⟨e | ⟨⟩, s₁⟩ <;>
    have hsame : regs s₁ = regs s := (hapi.openThread tid).of_outcome hopen
  · rw [Call.outcome_bind_error hopen] at h
    obtain ⟨rfl, rfl⟩ := Prod.mk.inj h
    exact Or.inr ⟨⟨e, rfl⟩, hsame⟩
  rw [Call.outcome_bind_ok hopen] at h
  rcases hget : (api.getThreadContext tid).outcome s₁ with ⟨e | ctx, s₂⟩ <;>
    have hsame₂ : regs s₂ = regs s := ((hapi.getThreadContext tid).of_outcome hget).trans hsame
  · rw [Call.outcome_bind_error hget] at h
    obtain ⟨rfl, rfl⟩ := Prod.mk.inj h
    exact Or.inr ⟨⟨e, rfl⟩, hsame₂⟩
  rw [Call.outcome_bind_ok hget] at h
  cases r with
  | error e => exact Or.inr ⟨⟨e, rfl⟩, (hapi.setThreadContext_error h).trans hsame₂⟩
  | ok _ =>
      refine Or.inl ⟨rfl, ?_⟩
      rw [hapi.setThreadContext_ok h, Function.update_self, hapi.getThreadContext_ok hget, hsame]

theorem editPrimary_spec (hapi : api.Works regs) {change : DebugRegisters → DebugRegisters}
    (h : (Impl.editPrimary api change).outcome d = (r, d')) :
    r = .ok () ∧ d'.registers regs = change (d.registers regs) ∨
      (∃ e, r = .error e) ∧ d'.registers regs = d.registers regs := by
  obtain ⟨rfl, rfl⟩ := Prod.mk.inj h
  rcases edit_spec hapi (Prod.ext rfl rfl : (api.edit d.primaryTid change).outcome d.os = _) with
    ⟨hok, hregs⟩ | ⟨herr, hregs⟩
  · exact Or.inl ⟨hok, hregs⟩
  · exact Or.inr ⟨herr, congrFun hregs _⟩

theorem Reflects.arm (h : Reflects start now slots) (hslot : IsSlot slot) (addr : U64) :
    Reflects start (now.arm slot addr) (Function.update slots slot (some addr)) where
  shown {other addr'} ha := by
    by_cases hne : other = slot
    · rw [hne, Function.update_self, Option.some.injEq] at ha
      rw [hne, ← ha]
      exact ⟨hslot, DebugRegisters.armed_arm hslot⟩
    · rw [Function.update_of_ne hne] at ha
      obtain ⟨hother, harmed⟩ := h.shown ha
      exact ⟨hother, harmed.arm hslot hother hne⟩
  spare {other} hother hnone henabled := by
    by_cases hne : other = slot
    · rw [hne, Function.update_self] at hnone
      cases hnone
    · rw [Function.update_of_ne hne] at hnone
      apply h.spare hother hnone
      exact (DebugRegisters.enabled_arm_of_ne hslot hother hne).mp henabled

theorem Reflects.disarm (h : Reflects start now slots) (hslot : IsSlot slot) :
    Reflects start (now.disarm slot) (Function.update slots slot none) where
  shown {other addr'} ha := by
    by_cases hne : other = slot
    · rw [hne, Function.update_self] at ha
      cases ha
    · rw [Function.update_of_ne hne] at ha
      obtain ⟨hother, harmed⟩ := h.shown ha
      exact ⟨hother, harmed.disarm hslot hother hne⟩
  spare {other} hother hnone henabled := by
    by_cases hne : other = slot
    · rw [hne] at henabled
      exact absurd henabled (DebugRegisters.not_enabled_disarm slot now)
    · rw [Function.update_of_ne hne] at hnone
      apply h.spare hother hnone
      exact (DebugRegisters.enabled_disarm_of_ne hslot hother hne).mp henabled

theorem isSlot_of_not (h : ¬ (slot < 0 ∨ slot > 3)) : IsSlot slot := by
  unfold IsSlot
  omega

/-- A call that goes to the registers only with a slot, and if there is a process. -/
theorem guarded_spec (hapi : api.Works regs) {change : DebugRegisters → DebugRegisters}
    {range attached : String}
    (h : (if slot < 0 ∨ slot > 3 then (.error range, d)
      else if d.attached = false then (.error attached, d)
      else (Impl.editPrimary api change).outcome d) = (r, d')) :
    (r = .ok () ∧ IsSlot slot ∧ d'.registers regs = change (d.registers regs)) ∨
      (∃ e, r = .error e) ∧ d'.registers regs = d.registers regs := by
  split_ifs at h with hrange hattached
  · obtain ⟨rfl, rfl⟩ := Prod.mk.inj h
    exact Or.inr ⟨⟨_, rfl⟩, rfl⟩
  · obtain ⟨rfl, rfl⟩ := Prod.mk.inj h
    exact Or.inr ⟨⟨_, rfl⟩, rfl⟩
  · rcases editPrimary_spec hapi h with ⟨hok, hregs⟩ | herror
    · exact Or.inl ⟨hok, isSlot_of_not hrange, hregs⟩
    · exact Or.inr herror

theorem setHwExecBp_spec (hapi : api.Works regs)
    (h : (Impl.setHwExecBp api slot addr).outcome d = (r, d')) :
    (r = .ok () ∧ IsSlot slot ∧ d'.registers regs = (d.registers regs).arm slot addr) ∨
      (∃ e, r = .error e) ∧ d'.registers regs = d.registers regs :=
  guarded_spec hapi h

theorem clearHwBp_spec (hapi : api.Works regs)
    (h : (Impl.clearHwBp api slot).outcome d = (r, d')) :
    (r = .ok () ∧ IsSlot slot ∧ d'.registers regs = (d.registers regs).disarm slot) ∨
      (∃ e, r = .error e) ∧ d'.registers regs = d.registers regs :=
  guarded_spec hapi h

theorem Reflects.setHwExecBp (hapi : api.Works regs) (h : Reflects start (d.registers regs) slots)
    (hcall : (Impl.setHwExecBp api slot addr).outcome d = (r, d')) :
    Reflects start (d'.registers regs) ((HostCall.setHwExecBp slot addr r.isOk).rearms slots) := by
  rcases setHwExecBp_spec hapi hcall with ⟨rfl, hslot, hregs⟩ | ⟨⟨e, rfl⟩, hregs⟩
  · rw [hregs]
    exact h.arm hslot addr
  · rw [hregs]
    exact h

theorem Reflects.clearHwBp (hapi : api.Works regs) (h : Reflects start (d.registers regs) slots)
    (hcall : (Impl.clearHwBp api slot).outcome d = (r, d')) :
    Reflects start (d'.registers regs) ((HostCall.clearHwBp slot r.isOk).rearms slots) := by
  rcases clearHwBp_spec hapi hcall with ⟨rfl, hslot, hregs⟩ | ⟨⟨e, rfl⟩, hregs⟩
  · rw [hregs]
    exact h.disarm hslot
  · rw [hregs]
    exact h

end Reflects

end Irida.Host
