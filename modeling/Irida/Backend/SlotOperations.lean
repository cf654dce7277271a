import Irida.Backend.HardwareSlots
import Irida.Lib.Overwrite

/-!
# Operations on the slots

A slot owns an address register, its local bit in `dr7` and the four bits of its condition and
length.  `set_hw_exec_bp` and `clear_hw_bp` write what their slot owns and nothing else, so after
any sequence of them the registers of each slot are those of the last operation on it
(`independent_run`).  An operation that returned an error is not counted: it has changed nothing.
-/

namespace Irida.Host

open Overwrite

/-- An operation on a slot: `set_hw_exec_bp` or `clear_hw_bp`. -/
inductive SlotOp
  | set (slot : ℤ) (addr : U64)
  | clear (slot : ℤ)
  deriving DecidableEq, Repr

namespace SlotOp

/-- The slot. -/
def slot : SlotOp → ℤ
  | .set slot _ | .clear slot => slot

/-- The address that is left in the register. -/
def address : SlotOp → U64
  | .set _ addr => addr
  | .clear _ => 0

/-- The local bit that is left. -/
def enables : SlotOp → Bool
  | .set _ _ => true
  | .clear _ => false

/-- What is made of the registers. -/
def change : SlotOp → DebugRegisters → DebugRegisters
  | .set slot addr => DebugRegisters.arm slot addr
  | .clear slot => DebugRegisters.disarm slot

/-- The function. -/
def call {σ : Type} (api : ThreadApi σ) : SlotOp → Call (Impl σ) Unit
  | .set slot addr => Impl.setHwExecBp api slot addr
  | .clear slot => Impl.clearHwBp api slot

end SlotOp

/-- The operations, one after the other, of which those that succeeded are returned. -/
def runSlotOps {σ : Type} (api : ThreadApi σ) : List SlotOp → Impl σ → List SlotOp × Impl σ
  | [], d => ([], d)
  | op :: ops, d =>
    match (op.call api).outcome d with
    | (.ok _, d) => (op :: (runSlotOps api ops d).1, (runSlotOps api ops d).2)
    | (.error _, d) => runSlotOps api ops d

/-- A bit of the condition or the length of a slot. -/
def FieldBit (slot : ℤ) (i : ℕ) : Prop :=
  16 + 4 * slot.toNat ≤ i ∧ i < 20 + 4 * slot.toNat

instance (slot : ℤ) (i : ℕ) : Decidable (FieldBit slot i) :=
  inferInstanceAs (Decidable (_ ∧ _))

/-- Each slot has what the last operation on it left, or what it had at the start. -/
structure Independent (start now : DebugRegisters) (done : List SlotOp) : Prop where
  address : ∀ {slot}, IsSlot slot → now.address slot =
    ((lastUnder SlotOp.slot slot done).map SlotOp.address).getD (start.address slot)
  enable : ∀ {slot}, IsSlot slot → now.dr7.getLsbD (2 * slot.toNat) =
    ((lastUnder SlotOp.slot slot done).map SlotOp.enables).getD
      (start.dr7.getLsbD (2 * slot.toNat))
  execute : ∀ {slot addr}, lastUnder SlotOp.slot slot done = some (.set slot addr) →
    ∀ i, FieldBit slot i → now.dr7.getLsbD i = false
  spare : ∀ i, (∀ op ∈ done, i ≠ 2 * op.slot.toNat ∧ ¬ FieldBit op.slot i) →
    now.dr7.getLsbD i = start.dr7.getLsbD i
  dr6 : now.dr6 = start.dr6

/-- No call on a thread fails. -/
structure ThreadApi.Succeeds {σ : Type} (api : ThreadApi σ) : Prop where
  openThread : ∀ tid s, ∃ s', (api.openThread tid).outcome s = (.ok (), s')
  getThreadContext : ∀ tid s, ∃ r s', (api.getThreadContext tid).outcome s = (.ok r, s')
  setThreadContext : ∀ tid r s, ∃ s', (api.setThreadContext tid r).outcome s = (.ok (), s')

/-! ## The bits of a slot -/

section Bits

variable {slot other : ℤ} {addr : U64} {r : DebugRegisters} {op : SlotOp} {i : ℕ}

theorem getLsbD_enableBit (hslot : IsSlot slot) (i : ℕ) :
    (enableBit slot).getLsbD i = decide (i = 2 * slot.toNat) := by
  obtain ⟨hlow, hhigh⟩ := hslot
  have hone : enableBit slot = BitVec.twoPow 64 (2 * slot.toNat) := by
    interval_cases slot <;> decide
  rw [hone, BitVec.getLsbD_twoPow, Bool.eq_iff_iff]
  simp only [Bool.and_eq_true, decide_eq_true_iff]
  omega

theorem getLsbD_rwLenMask (hslot : IsSlot slot) (i : ℕ) :
    (rwLenMask slot).getLsbD i = decide (FieldBit slot i) := by
  obtain ⟨hlow, hhigh⟩ := hslot
  have hshift : rwLenMask slot = (BitVec.allOnes 4).setWidth 64 <<< (16 + 4 * slot.toNat) := by
    interval_cases slot <;> decide
  rw [hshift, BitVec.getLsbD_shiftLeft, BitVec.getLsbD_setWidth, BitVec.getLsbD_allOnes,
    Bool.eq_iff_iff]
  simp only [Bool.and_eq_true, Bool.not_eq_true', decide_eq_true_iff, decide_eq_false_iff_not]
  unfold FieldBit
  omega

theorem not_fieldBit (hslot : IsSlot slot) (other : ℤ) : ¬ FieldBit other (2 * slot.toNat) := by
  obtain ⟨hlow, hhigh⟩ := hslot
  unfold FieldBit
  omega

theorem lt_of_fieldBit (hslot : IsSlot slot) (h : FieldBit slot i) : i < 64 := by
  obtain ⟨hlow, hhigh⟩ := hslot
  unfold FieldBit at h
  omega

theorem getLsbD_arm (hslot : IsSlot slot) (i : ℕ) :
    (r.arm slot addr).dr7.getLsbD i =
      if i = 2 * slot.toNat then true
      else if FieldBit slot i then false
      else r.dr7.getLsbD i := by
  have hbits : (r.arm slot addr).dr7.getLsbD i =
      (r.dr7.getLsbD i && (decide (i < 64) && !decide (FieldBit slot i)) ||
        decide (i = 2 * slot.toNat)) := by
    rw [DebugRegisters.arm, BitVec.getLsbD_or, BitVec.getLsbD_and, BitVec.getLsbD_not,
      getLsbD_rwLenMask hslot, getLsbD_enableBit hslot]
  rw [hbits]
  by_cases hi : i = 2 * slot.toNat
  · simp [hi]
  · by_cases hlt : i < 64
    · by_cases hfield : FieldBit slot i <;> simp [hi, hlt, hfield]
    · have hfield : ¬ FieldBit slot i := fun h => hlt (lt_of_fieldBit hslot h)
      simp [hi, hfield, BitVec.getLsbD_of_ge r.dr7 i (by omega)]

theorem getLsbD_disarm (hslot : IsSlot slot) (i : ℕ) :
    (r.disarm slot).dr7.getLsbD i =
      if i = 2 * slot.toNat then false else r.dr7.getLsbD i := by
  have hbits : (r.disarm slot).dr7.getLsbD i =
      (r.dr7.getLsbD i && (decide (i < 64) && !decide (i = 2 * slot.toNat))) := by
    rw [DebugRegisters.disarm, BitVec.getLsbD_and, BitVec.getLsbD_not, getLsbD_enableBit hslot]
  rw [hbits]
  by_cases hi : i = 2 * slot.toNat
  · simp [hi]
  · by_cases hlt : i < 64
    · simp [hi, hlt]
    · simp [hi, BitVec.getLsbD_of_ge r.dr7 i (by omega)]

theorem getLsbD_change (hop : IsSlot op.slot) (i : ℕ) :
    (op.change r).dr7.getLsbD i =
      if i = 2 * op.slot.toNat then op.enables
      else if op.enables = true ∧ FieldBit op.slot i then false
      else r.dr7.getLsbD i := by
  cases op with
  | set slot addr =>
      refine (getLsbD_arm hop i).trans ?_
      by_cases hfield : FieldBit slot i <;> simp [SlotOp.slot, SlotOp.enables, hfield]
  | clear slot =>
      refine (getLsbD_disarm hop i).trans ?_
      by_cases hi : i = 2 * slot.toNat <;> simp [SlotOp.slot, SlotOp.enables, hi]

theorem dr6_setAddress (r : DebugRegisters) (addr : U64) (slot : ℤ) :
    (r.setAddress addr slot).dr6 = r.dr6 := by
  unfold DebugRegisters.setAddress
  split <;> rfl

theorem dr6_change (op : SlotOp) (r : DebugRegisters) : (op.change r).dr6 = r.dr6 := by
  cases op with
  | set slot addr => exact dr6_setAddress r addr slot
  | clear slot => exact dr6_setAddress r 0 slot

theorem address_change (hop : IsSlot op.slot) (hslot : IsSlot slot) :
    (op.change r).address slot = if op.slot = slot then op.address else r.address slot := by
  split
  · next hsame =>
      subst hsame
      cases op with
      | set slot addr => exact DebugRegisters.address_setAddress hop
      | clear slot => exact DebugRegisters.address_setAddress hop
  · next hne =>
      have hne : slot ≠ op.slot := fun h => hne h.symm
      cases op with
      | set other addr => exact DebugRegisters.address_setAddress_of_ne hop hslot hne
      | clear other => exact DebugRegisters.address_setAddress_of_ne hop hslot hne

end Bits

/-! ## Sequences of operations -/

section Sequences

variable {start now : DebugRegisters} {done : List SlotOp} {op : SlotOp}

theorem independent_nil (start : DebugRegisters) : Independent start start [] where
  address _ := rfl
  enable _ := rfl
  execute hlast := by cases hlast
  spare _ _ := rfl
  dr6 := rfl

theorem Independent.concat (h : Independent start now done) (hop : IsSlot op.slot) :
    Independent start (op.change now) (done ++ [op]) where
  address {slot} hslot := by
    rw [address_change hop hslot, lastUnder_concat, h.address hslot]
    split <;> rfl
  enable {slot} hslot := by
    have hsame : 2 * slot.toNat = 2 * op.slot.toNat ↔ op.slot = slot := by
      obtain ⟨hlow, -⟩ := hslot
      obtain ⟨hlow', -⟩ := hop
      omega
    rw [getLsbD_change hop, lastUnder_concat, h.enable hslot]
    by_cases heq : op.slot = slot
    · simp [heq]
    · simp [hsame, heq, not_fieldBit hslot]
  execute {slot addr} hlast i hi := by
    have hbit : i ≠ 2 * op.slot.toNat := by
      rintro rfl
      exact not_fieldBit hop slot hi
    rw [lastUnder_concat] at hlast
    rw [getLsbD_change hop, if_neg hbit]
    split at hlast
    · obtain rfl := Option.some.inj hlast
      exact if_pos ⟨rfl, hi⟩
    · rw [h.execute hlast i hi, ite_self]
  spare i hi := by
    obtain ⟨hbit, hfield⟩ := hi op (by simp)
    rw [getLsbD_change hop, if_neg hbit, if_neg fun h => hfield h.2]
    exact h.spare i fun other hother => hi other (by simp [hother])
  dr6 := (dr6_change op now).trans h.dr6

theorem independent_foldl (start : DebugRegisters) (hdone : ∀ op ∈ done, IsSlot op.slot) :
    Independent start (done.foldl (fun r op => op.change r) start) done := by
  induction done using List.reverseRecOn with
  | nil => exact independent_nil start
  | append_singleton done op ih =>
      rw [List.foldl_append]
      have hprefix := ih fun other hother => hdone other (by simp [hother])
      exact hprefix.concat (hdone op (by simp))

variable {σ : Type} {api : ThreadApi σ} {regs : σ → U32 → DebugRegisters} {d d' : Impl σ}
  {r : Result Unit}

/-- An operation that succeeds is on a slot and changes the registers, and another one changes
nothing. -/
theorem call_spec (hapi : api.Works regs) (h : (op.call api).outcome d = (r, d')) :
    (r = .ok () ∧ IsSlot op.slot ∧ d'.registers regs = op.change (d.registers regs)) ∨
      (∃ e, r = .error e) ∧ d'.registers regs = d.registers regs := by
  cases op with
  | set slot addr => exact setHwExecBp_spec hapi h
  | clear slot => exact clearHwBp_spec hapi h

/-- The registers after a sequence are those that the successful operations make. -/
theorem registers_runSlotOps (hapi : api.Works regs) (ops : List SlotOp) (d : Impl σ) :
    (∀ op ∈ (runSlotOps api ops d).1, IsSlot op.slot) ∧
      (runSlotOps api ops d).2.registers regs =
        (runSlotOps api ops d).1.foldl (fun r op => op.change r) (d.registers regs) := by
  induction ops generalizing d with
  | nil => exact ⟨by simp [runSlotOps], rfl⟩
  | cons op ops ih =>
      unfold runSlotOps
      rcases hcall : (op.call api).outcome d with ⟨e | ⟨⟩, d'⟩
      · rcases call_spec hapi hcall with ⟨hok, -⟩ | ⟨-, hregs⟩
        · cases hok
        · rw [← hregs]
          exact ih d'
      · rcases call_spec hapi hcall with ⟨-, hslot, hregs⟩ | ⟨⟨e, herror⟩, -⟩
        · obtain ⟨hslots, hrest⟩ := ih d'
          refine ⟨List.forall_mem_cons.mpr ⟨hslot, hslots⟩, ?_⟩
          dsimp only
          rw [hrest, hregs, List.foldl_cons]
        · cases herror

theorem call_eq (api : ThreadApi σ) (op : SlotOp) (d : Impl σ) : ∃ range attached : String,
    (op.call api).outcome d =
      if op.slot < 0 ∨ op.slot > 3 then (.error range, d)
      else if d.attached = false then (.error attached, d)
      else (Impl.editPrimary api op.change).outcome d := by
  cases op with
  | set slot addr => exact ⟨_, _, rfl⟩
  | clear slot => exact ⟨_, _, rfl⟩

/-- On a debuggee that is attached, and where no call on a thread fails, an operation on a slot
succeeds. -/
theorem call_ok (hok : api.Succeeds) (hattached : d.attached = true) (hop : IsSlot op.slot) :
    ∃ d', (op.call api).outcome d = (.ok (), d') ∧ d'.attached = true := by
  obtain ⟨hlow, hhigh⟩ := hop
  obtain ⟨range, attached, hcall⟩ := call_eq api op d
  obtain ⟨s₁, hopen⟩ := hok.openThread d.primaryTid d.os
  obtain ⟨ctx, s₂, hget⟩ := hok.getThreadContext d.primaryTid s₁
  obtain ⟨s₃, hset⟩ := hok.setThreadContext d.primaryTid (op.change ctx) s₂
  have hedit : (api.edit d.primaryTid op.change).outcome d.os = (.ok (), s₃) := by
    unfold ThreadApi.edit
    rw [Call.outcome_bind_ok hopen, Call.outcome_bind_ok hget, hset]
  refine ⟨{ d with os := s₃ }, ?_, hattached⟩
  rw [hcall, if_neg (by omega), if_neg (by simp [hattached])]
  show (((api.edit d.primaryTid op.change).outcome d.os).1,
    { d with os := ((api.edit d.primaryTid op.change).outcome d.os).2 }) = _
  rw [hedit]

theorem runSlotOps_fst (hok : api.Succeeds) {ops : List SlotOp} (hops : ∀ op ∈ ops, IsSlot op.slot)
    (hattached : d.attached = true) : (runSlotOps api ops d).1 = ops := by
  induction ops generalizing d with
  | nil => rfl
  | cons op ops ih =>
      obtain ⟨hop, hops⟩ := List.forall_mem_cons.mp hops
      obtain ⟨d', hcall, hattached'⟩ := call_ok hok hattached hop
      unfold runSlotOps
      rw [hcall]
      exact congrArg (op :: ·) (ih hops hattached')

/-- **The slots are independent**: after any operations each slot has what the last successful one
on it left, and all operations on slots succeed if the debuggee is attached and no call on a thread
fails. -/
theorem independent_run (hapi : api.Works regs) (ops : List SlotOp) (d : Impl σ) :
    Independent (d.registers regs) ((runSlotOps api ops d).2.registers regs)
        (runSlotOps api ops d).1 ∧
      (api.Succeeds → d.attached = true → (∀ op ∈ ops, IsSlot op.slot) →
        (runSlotOps api ops d).1 = ops) := by
  obtain ⟨hslots, hregs⟩ := registers_runSlotOps hapi ops d
  rw [hregs]
  exact ⟨independent_foldl _ hslots, fun hok hattached hops => runSlotOps_fst hok hops hattached⟩

end Sequences

theorem succeeds_ready : NativeBackend.readyApi.Succeeds where
  openThread _ _ := ⟨_, rfl⟩
  getThreadContext _ _ := ⟨_, _, rfl⟩
  setThreadContext _ _ _ := ⟨_, rfl⟩

/-- Two slots are set, one of them is set again and the other is cleared. -/
theorem independent_ready :
    Independent {}
      ((runSlotOps NativeBackend.readyApi [.set 0 0x1000, .set 3 0x2000, .set 0 0x3000, .clear 3]
        { os := fun _ => {}, primaryTid := 1 }).2.registers id)
      [.set 0 0x1000, .set 3 0x2000, .set 0 0x3000, .clear 3] := by
  obtain ⟨hindependent, hall⟩ := independent_run NativeBackend.works_ready
    [.set 0 0x1000, .set 3 0x2000, .set 0 0x3000, .clear 3] { os := fun _ => {}, primaryTid := 1 }
  rwa [hall succeeds_ready rfl (by simp [IsSlot, SlotOp.slot])] at hindependent

end Irida.Host
