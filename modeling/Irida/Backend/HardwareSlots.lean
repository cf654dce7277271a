import Irida.Backend.Detach
import Irida.Host.DebugRegisters

/-!
# Slots of hardware breakpoints

`next_hw_slot_` only goes up, and `hw_bp_slot_` has one slot for an address.  So a slot is lost
when the host call for it fails and when its breakpoint is removed, and a slot is forgotten when a
second breakpoint is set at its address.

`Sessions.accounted_iff` is about every sequence of calls: the table accounts for the enabled slots,
and a breakpoint is refused only if all four are enabled, exactly if no slot was forgotten, and none
was lost once all four have been used.
-/

namespace Irida.NativeBackend

open Host

variable {δ : Type} {host : NativeDebuggee δ}

/-- The operation sets or removes a hardware breakpoint. -/
def Operation.IsHardware : Operation → Prop
  | .set .hardwareExec _ _ | .remove .hardwareExec _ _ => True
  | _ => False

/-- The enabled slots are those in the table, which has no slot for two addresses. -/
structure Accounted (b : NativeBackend (Audited δ)) : Prop where
  enabled_iff : ∀ slot,
    armed b.debuggee.log slot ≠ none ↔ ∃ addr : U64, b.hwBpSlot[addr]? = some slot
  injective : ∀ {addr addr' : U64} {slot}, b.hwBpSlot[addr]? = some slot →
    b.hwBpSlot[addr']? = some slot → addr = addr'

/-- A breakpoint is refused without a call of the host only if all four slots are enabled. -/
def RefusedOnlyFull (host : NativeDebuggee (Audited δ)) (b : NativeBackend (Audited δ)) : Prop :=
  ∀ addr size, (setBreakpoint host .hardwareExec addr size).outcome b =
    (.error "NativeBackend: no free hardware breakpoint slot", b) →
      ∀ slot, IsSlot slot → armed b.debuggee.log slot ≠ none

/-- The call asks for a slot. -/
def Asks : HostCall → Bool
  | .setHwExecBp _ _ _ => true
  | _ => false

/-- The number of slots that have been used. -/
def used (log : List HostCall) : ℕ :=
  log.countP Asks

/-- Every call meets a rule with regard to those before it. -/
def Obeys (rule : List HostCall → HostCall → Prop) (log : List HostCall) : Prop :=
  ∀ before c after, log = before ++ c :: after → rule before c

/-- No breakpoint was set at an address where one was enabled. -/
def Apart : List HostCall → Prop :=
  Obeys fun before c => ∀ slot addr, c = .setHwExecBp slot addr true →
    ∀ other, armed before other ≠ some addr

/-- The slot of the call was not used in vain, and is not given up. -/
def Spares : HostCall → Prop
  | .setHwExecBp _ _ ok => ok = true
  | .clearHwBp _ ok => ok = false
  | _ => True

/-- No slot was lost. -/
def Lossless (log : List HostCall) : Prop :=
  ∀ c ∈ log, Spares c

/-! ## One more call -/

section Log

variable {log : List HostCall} {slot : ℤ} {addr : U64}

theorem lossless_concat (c : HostCall) : Lossless (log ++ [c]) ↔ Lossless log ∧ Spares c := by
  unfold Lossless
  rw [List.forall_mem_append, List.forall_mem_singleton]

theorem used_concat (c : HostCall) : used (log ++ [c]) = used log + if Asks c then 1 else 0 := by
  rw [used, List.countP_append, List.countP_singleton]
  rfl

theorem obeys_concat {rule : List HostCall → HostCall → Prop} (c : HostCall) :
    Obeys rule (log ++ [c]) ↔ Obeys rule log ∧ rule log c := by
  constructor
  · intro h
    refine ⟨fun before c' after hlog => ?_, h log c [] rfl⟩
    apply h before c' (after ++ [c])
    rw [hlog, List.append_assoc, List.cons_append]
  · rintro ⟨h, hlast⟩ before c' after hlog
    rcases List.eq_nil_or_concat after with rfl | ⟨after, last, rfl⟩
    · obtain ⟨rfl, hc⟩ := List.append_inj' hlog rfl
      rw [← (List.cons.inj hc).1]
      exact hlast
    · rw [List.concat_eq_append, ← List.cons_append, ← List.append_assoc] at hlog
      exact h before c' after (List.append_inj' hlog rfl).1

theorem apart_concat_set : Apart (log ++ [.setHwExecBp slot addr true]) ↔
    Apart log ∧ ∀ other, armed log other ≠ some addr := by
  rw [Apart, obeys_concat]
  refine and_congr_right fun _ => ⟨fun h => h slot addr rfl, fun h slot' addr' hc => ?_⟩
  obtain ⟨-, rfl, -⟩ := HostCall.setHwExecBp.inj hc
  exact h

theorem apart_concat_of_ne {c : HostCall} (hc : ∀ slot addr, c ≠ .setHwExecBp slot addr true) :
    Apart (log ++ [c]) ↔ Apart log := by
  rw [Apart, obeys_concat]
  exact and_iff_left fun slot addr heq => absurd heq (hc slot addr)

end Log

/-! ## Slots and a table of them -/

section Tabled

variable {slots : ℤ → Option U64} {table : Std.ExtTreeMap U64 ℤ} {slot : ℤ} {addr : U64}

/-- A new slot is entered in the table.  All slots are in it afterwards if all were before, and
none of them had the address. -/
theorem tabled_insert_iff (hfree : slots slot = none) :
    ((∀ other addr', slots other = some addr' → table[addr']? = some other) ∧
        ∀ other, slots other ≠ some addr) ↔
      ∀ other addr', Function.update slots slot (some addr) other = some addr' →
        (table.insert addr slot)[addr']? = some other := by
  constructor
  · rintro ⟨htable, hnew⟩ other addr' ha
    rw [Std.ExtTreeMap.getElem?_insert]
    by_cases hother : other = slot
    · rw [hother, Function.update_self, Option.some.injEq] at ha
      simp [ha, hother]
    · rw [Function.update_of_ne hother] at ha
      have hne : addr ≠ addr' := fun heq => hnew other (heq ▸ ha)
      simpa [hne] using htable other addr' ha
  · intro htable
    have hold : ∀ {other addr'}, slots other = some addr' →
        other ≠ slot ∧ (table.insert addr slot)[addr']? = some other := by
      intro other addr' ha
      have hne : other ≠ slot := by
        rintro rfl
        cases hfree.symm.trans ha
      exact ⟨hne, htable other addr' (by rwa [Function.update_of_ne hne])⟩
    have hnew : ∀ other, slots other ≠ some addr := by
      intro other ha
      obtain ⟨hne, hlast⟩ := hold ha
      -- the table has one slot for the address
      rw [Std.ExtTreeMap.getElem?_insert_self, Option.some.injEq] at hlast
      exact hne hlast.symm
    refine ⟨fun other addr' ha => ?_, hnew⟩
    have haddr : addr ≠ addr' := fun heq => hnew other (heq ▸ ha)
    simpa [Std.ExtTreeMap.getElem?_insert, haddr] using (hold ha).2

/-- A slot is taken out of the table.  The others are in it as they were before. -/
theorem tabled_erase_iff (hslots : slots slot = some addr) (htabled : table[addr]? = some slot) :
    (∀ other addr', slots other = some addr' → table[addr']? = some other) ↔
      ∀ other addr', Function.update slots slot none other = some addr' →
        (table.erase addr)[addr']? = some other := by
  constructor
  · intro htable other addr' ha
    by_cases hother : other = slot
    · simp [hother] at ha
    · rw [Function.update_of_ne hother] at ha
      have hold := htable other addr' ha
      have haddr : addr ≠ addr' := by
        rintro rfl
        exact hother (Option.some.inj (hold.symm.trans htabled))
      simpa [Std.ExtTreeMap.getElem?_erase, haddr] using hold
  · intro htable other addr' ha
    by_cases hother : other = slot
    · rw [hother] at ha ⊢
      rwa [← Option.some.inj (hslots.symm.trans ha)]
    · have hlast := htable other addr' (by rwa [Function.update_of_ne hother])
      by_cases haddr : addr = addr'
      · simp [haddr] at hlast
      · simpa [Std.ExtTreeMap.getElem?_erase, haddr] using hlast

end Tabled

/-! ## The counter, the table and the calls -/

/-- What holds of the counter, the table and the calls in every run. -/
structure Slotted (next : ℤ) (table : Std.ExtTreeMap U64 ℤ) (log : List HostCall) : Prop where
  next_eq : next = used log
  next_le : next ≤ 4
  range : ∀ {slot addr}, armed log slot = some addr → 0 ≤ slot ∧ slot < next
  recorded : ∀ {slot} {addr : U64}, table[addr]? = some slot → armed log slot = some addr
  apart_iff : Apart log ↔ ∀ slot addr, armed log slot = some addr → table[addr]? = some slot
  lossless_iff : Lossless log ↔ ∀ slot, 0 ≤ slot → slot < next → armed log slot ≠ none

section Slotted

variable {next slot : ℤ} {table : Std.ExtTreeMap U64 ℤ} {log : List HostCall} {addr : U64}

theorem slotted_nil : Slotted 0 ∅ [] where
  next_eq := rfl
  next_le := by decide
  range h := by cases h
  recorded h := by simp at h
  apart_iff := by
    refine iff_of_true (fun before c after h => ?_) fun slot addr h => by cases h
    exact absurd h.symm (List.append_ne_nil_of_right_ne_nil before (List.cons_ne_nil c after))
  lossless_iff := by
    refine iff_of_true (fun c hc => absurd hc List.not_mem_nil) fun slot hnonneg hlt => ?_
    omega

theorem Slotted.nonneg (h : Slotted next table log) : 0 ≤ next := by
  rw [h.next_eq]
  exact Int.natCast_nonneg _

theorem Slotted.armed_next (h : Slotted next table log) : armed log next = none := by
  by_contra hsome
  obtain ⟨addr, haddr⟩ := Option.ne_none_iff_exists'.mp hsome
  exact absurd (h.range haddr).2 (lt_irrefl next)

theorem Slotted.failed (h : Slotted next table log) (hfree : next ≤ 3) (addr : U64) :
    Slotted (next + 1) table (log ++ [.setHwExecBp next addr false]) where
  next_eq := by
    rw [used_concat, h.next_eq]
    rfl
  next_le := by omega
  range {slot addr'} ha := by
    rw [armed_concat] at ha
    obtain ⟨hnonneg, hlt⟩ := h.range ha
    omega
  recorded ha := by
    rw [armed_concat]
    exact h.recorded ha
  apart_iff := by
    rw [apart_concat_of_ne (by simp), armed_concat]
    exact h.apart_iff
  lossless_iff := by
    rw [lossless_concat, armed_concat]
    refine iff_of_false (fun hspares => Bool.false_ne_true hspares.2) fun hall => ?_
    exact hall next h.nonneg (by omega) h.armed_next

theorem Slotted.set (h : Slotted next table log) (hfree : next ≤ 3) (addr : U64) :
    Slotted (next + 1) (table.insert addr next) (log ++ [.setHwExecBp next addr true]) where
  next_eq := by
    rw [used_concat, h.next_eq]
    rfl
  next_le := by omega
  range {slot addr'} ha := by
    rw [armed_concat, HostCall.rearms] at ha
    by_cases hslot : slot = next
    · have := h.nonneg
      omega
    · rw [Function.update_of_ne hslot] at ha
      obtain ⟨hnonneg, hlt⟩ := h.range ha
      omega
  recorded {slot addr'} ha := by
    rw [Std.ExtTreeMap.getElem?_insert] at ha
    rw [armed_concat, HostCall.rearms]
    -- an entry of another address has a slot below the next one
    by_cases haddr : addr = addr'
    · obtain rfl : next = slot := by simpa [haddr] using ha
      rw [Function.update_self, haddr]
    · have hold := h.recorded (by simpa [haddr] using ha)
      have hne : slot ≠ next := (h.range hold).2.ne
      rw [Function.update_of_ne hne]
      exact hold
  apart_iff := by
    rw [apart_concat_set, h.apart_iff, armed_concat, HostCall.rearms]
    exact tabled_insert_iff h.armed_next
  lossless_iff := by
    rw [lossless_concat, h.lossless_iff, armed_concat, HostCall.rearms]
    constructor
    · rintro ⟨hall, -⟩ slot hnonneg hlt
      by_cases hslot : slot = next
      · simp [hslot]
      · rw [Function.update_of_ne hslot]
        exact hall slot hnonneg (by omega)
    · refine fun hall => ⟨fun slot hnonneg hlt => ?_, rfl⟩
      have hlast := hall slot hnonneg (by omega)
      rwa [Function.update_of_ne hlt.ne] at hlast

theorem Slotted.kept (h : Slotted next table log) (slot : ℤ) :
    Slotted next table (log ++ [.clearHwBp slot false]) where
  next_eq := by
    rw [used_concat]
    exact h.next_eq
  next_le := h.next_le
  range ha := by
    rw [armed_concat] at ha
    exact h.range ha
  recorded ha := by
    rw [armed_concat]
    exact h.recorded ha
  apart_iff := by
    rw [apart_concat_of_ne (by simp), armed_concat]
    exact h.apart_iff
  lossless_iff := by
    rw [lossless_concat, armed_concat]
    exact (and_iff_left rfl).trans h.lossless_iff

theorem Slotted.cleared (h : Slotted next table log) (hslot : table[addr]? = some slot) :
    Slotted next (table.erase addr) (log ++ [.clearHwBp slot true]) where
  next_eq := by
    rw [used_concat]
    exact h.next_eq
  next_le := h.next_le
  range {other addr'} ha := by
    rw [armed_concat, HostCall.rearms] at ha
    by_cases hother : other = slot
    · simp [hother] at ha
    · rw [Function.update_of_ne hother] at ha
      exact h.range ha
  recorded {other addr'} ha := by
    rw [Std.ExtTreeMap.getElem?_erase] at ha
    rw [armed_concat, HostCall.rearms]
    by_cases haddr : addr = addr'
    · simp [haddr] at ha
    · have hold : table[addr']? = some other := by simpa [haddr] using ha
      have hne : other ≠ slot := by
        rintro rfl
        exact haddr (Option.some.inj ((h.recorded hslot).symm.trans (h.recorded hold)))
      rw [Function.update_of_ne hne]
      exact h.recorded hold
  apart_iff := by
    rw [apart_concat_of_ne (by simp), h.apart_iff, armed_concat, HostCall.rearms]
    exact tabled_erase_iff (h.recorded hslot) hslot
  -- the slot was in range, and is not enabled any more
  lossless_iff := by
    rw [lossless_concat, armed_concat, HostCall.rearms]
    refine iff_of_false (fun hspares => Bool.false_ne_true hspares.2.symm) fun hall => ?_
    obtain ⟨hnonneg, hlt⟩ := h.range (h.recorded hslot)
    exact hall slot hnonneg hlt (Function.update_self ..)

end Slotted

/-! ## A run -/

section Runs

variable {σ : Type} {host : NativeDebuggee (Impl σ)} {api : ThreadApi σ}
  {regs : σ → U32 → DebugRegisters} {start b b' : NativeBackend (Audited (Impl σ))}

/-- What holds in every run, with the registers at its start. -/
structure Steady (regs : σ → U32 → DebugRegisters) (start : DebugRegisters)
    (b : NativeBackend (Audited (Impl σ))) : Prop where
  attached : b.attached = true
  slotted : Slotted b.nextHwSlot b.hwBpSlot b.debuggee.log
  reflects : Reflects start (b.debuggee.debuggee.registers regs) (armed b.debuggee.log)

theorem Steady.setHardware (hapi : api.Works regs) {start : DebugRegisters}
    (h : Steady regs start b) (addr : U64) :
    Steady regs start ((setHardware (host.withDebugRegisters api).audit addr).outcome b).2 := by
  rcases setHardware_cases (host.withDebugRegisters api).audit b addr with
    ⟨-, hcall⟩ | ⟨hfree, r, d, haudit, hcall⟩
  · rw [hcall]
    exact h
  · rcases hset : (Impl.setHwExecBp api b.nextHwSlot addr).outcome b.debuggee.debuggee with ⟨r', d'⟩
    rw [audit_setHwExecBp (host.withDebugRegisters api) hset] at haudit
    obtain ⟨rfl, rfl⟩ := Prod.mk.inj haudit
    have hreflects := h.reflects.setHwExecBp hapi hset
    rw [hcall]
    refine ⟨h.attached, ?_, ?_⟩
    · cases r' with
      | error e => exact h.slotted.failed hfree addr
      | ok _ => exact h.slotted.set hfree addr
    · show Reflects start _ (armed (_ ++ [_]))
      rw [armed_concat]
      exact hreflects

theorem Steady.removeHardware (hapi : api.Works regs) {start : DebugRegisters}
    (h : Steady regs start b) (addr : U64) :
    Steady regs start ((removeHardware (host.withDebugRegisters api).audit addr).outcome b).2 := by
  rcases removeHardware_cases (host.withDebugRegisters api).audit b addr with
    hcall | ⟨slot, r, d, hslot, haudit, hcall⟩
  · rw [hcall]
    exact h
  · rcases hclear : (Impl.clearHwBp api slot).outcome b.debuggee.debuggee with ⟨r', d'⟩
    rw [audit_clearHwBp (host.withDebugRegisters api) hclear] at haudit
    obtain ⟨rfl, rfl⟩ := Prod.mk.inj haudit
    have hreflects := h.reflects.clearHwBp hapi hclear
    rw [hcall]
    refine ⟨h.attached, ?_, ?_⟩
    · cases r' with
      | error e => exact h.slotted.kept slot
      | ok _ => exact h.slotted.cleared hslot
    · show Reflects start _ (armed (_ ++ [_]))
      rw [armed_concat]
      exact hreflects

theorem Steady.operate (hapi : api.Works regs) {start : DebugRegisters} (h : Steady regs start b)
    {op : Operation} (hhardware : op.IsHardware)
    (hop : operate (host.withDebugRegisters api).audit b op = some b') :
    Steady regs start b' := by
  cases op with
  | set kind addr size =>
      cases kind with
      | hardwareExec =>
          obtain rfl := Option.some.inj hop
          rw [setBreakpoint, Call.outcome_bind_ok (requireAttached_outcome _ h.attached)]
          exact h.setHardware hapi addr
      | _ => exact hhardware.elim
  | remove kind addr size =>
      cases kind with
      | hardwareExec =>
          obtain rfl := Option.some.inj hop
          rw [removeBreakpoint, Call.outcome_bind_ok (requireAttached_outcome _ h.attached)]
          exact h.removeHardware hapi addr
      | _ => exact hhardware.elim
  | _ => exact hhardware.elim

/-- The table accounts for the enabled slots exactly if no breakpoint was set over another one. -/
theorem Slotted.accounted_iff_apart {δ : Type} {b : NativeBackend (Audited δ)}
    (h : Slotted b.nextHwSlot b.hwBpSlot b.debuggee.log) :
    Accounted b ↔ Apart b.debuggee.log := by
  rw [h.apart_iff]
  constructor
  · intro haccounted slot addr ha
    obtain ⟨addr', hrecorded⟩ := (haccounted.enabled_iff slot).mp (by simp [ha])
    have hsame := (h.recorded hrecorded).symm.trans ha
    rwa [Option.some.inj hsame] at hrecorded
  · intro htable
    refine ⟨fun slot => ⟨fun hsome => ?_, ?_⟩, fun ha ha' => ?_⟩
    · obtain ⟨addr, ha⟩ := Option.ne_none_iff_exists'.mp hsome
      exact ⟨addr, htable slot addr ha⟩
    · rintro ⟨addr, hrecorded⟩
      simp [h.recorded hrecorded]
    · exact Option.some.inj ((h.recorded ha).symm.trans (h.recorded ha'))

/-- A breakpoint is refused only if all slots are enabled exactly if slots are left or none was
lost. -/
theorem Slotted.refusedOnlyFull_iff {δ : Type} {host : NativeDebuggee δ}
    {b : NativeBackend (Audited δ)} (h : Slotted b.nextHwSlot b.hwBpSlot b.debuggee.log)
    (hattached : b.attached = true) :
    RefusedOnlyFull host.audit b ↔ used b.debuggee.log < 4 ∨ Lossless b.debuggee.log := by
  have hused := h.next_eq
  have hle := h.next_le
  have hrefused : ∀ addr size,
      (setBreakpoint host.audit .hardwareExec addr size).outcome b =
        (.error "NativeBackend: no free hardware breakpoint slot", b) ↔ 3 < b.nextHwSlot := by
    intro addr size
    rw [setBreakpoint, Call.outcome_bind_ok (requireAttached_outcome _ hattached)]
    show (setHardware host.audit addr).outcome b = _ ↔ _
    rcases setHardware_cases host.audit b addr with ⟨hfull, hcall⟩ | ⟨hfree, r, d, -, hcall⟩
    · exact iff_of_true hcall hfull
    · refine iff_of_false (fun heq => ?_) (by omega)
      -- the counter has gone up
      have hnext := congrArg NativeBackend.nextHwSlot (hcall.symm.trans (congrArg Prod.snd heq))
      exact absurd hnext (by simp)
  rw [h.lossless_iff]
  constructor
  · intro honly
    by_cases hfull : 3 < b.nextHwSlot
    · right
      intro slot hnonneg hlt
      exact honly 0 0 ((hrefused 0 0).mpr hfull) slot ⟨hnonneg, by omega⟩
    · left
      omega
  · rintro (hleft | hall) addr size heq slot ⟨hnonneg, hlt⟩
    · have := (hrefused addr size).mp heq
      omega
    · have := (hrefused addr size).mp heq
      exact hall slot hnonneg (by omega)

/-- **The slots are accounted for.** In every run the debug registers show the slots that were
enabled.  The table accounts for them, and a breakpoint is refused only if all four are enabled,
exactly if no breakpoint was set where one was enabled, and if fewer than four slots were used or
none was lost. -/
theorem Sessions.accounted_iff (hapi : api.Works regs) (hattached : start.attached = true)
    (hnext : start.nextHwSlot = 0) (hempty : start.hwBpSlot = ∅) (hlog : start.debuggee.log = [])
    (h : Sessions (host.withDebugRegisters api).audit (fun _ op _ => op.IsHardware) start b) :
    Reflects (start.debuggee.debuggee.registers regs) (b.debuggee.debuggee.registers regs)
        (armed b.debuggee.log) ∧
      (Accounted b ∧ RefusedOnlyFull (host.withDebugRegisters api).audit b ↔
        Apart b.debuggee.log ∧ (used b.debuggee.log < 4 ∨ Lossless b.debuggee.log)) := by
  have hsteady : Steady regs (start.debuggee.debuggee.registers regs) b := by
    induction h with
    | start =>
        refine ⟨hattached, ?_, ?_⟩
        · rw [hnext, hempty, hlog]
          exact slotted_nil
        · rw [hlog]
          exact ⟨fun ha => absurd ha (by simp [armed]), fun _ _ henabled => henabled⟩
    | call op _ hhardware hop ih => exact ih.operate hapi hhardware hop
  refine ⟨hsteady.reflects, ?_⟩
  rw [hsteady.slotted.accounted_iff_apart, hsteady.slotted.refusedOnlyFull_iff hsteady.attached]

end Runs

/-! ## A debuggee of which only the debug registers are used -/

/-- Calls on threads that never fail. -/
def readyApi : ThreadApi (U32 → DebugRegisters) where
  openThread _ regs := (.ok (), regs)
  getThreadContext tid regs := (.ok (regs tid), regs)
  setThreadContext tid r regs := (.ok (), Function.update regs tid r)

theorem works_ready : readyApi.Works id where
  openThread _ _ := rfl
  getThreadContext _ _ := rfl
  getThreadContext_ok h := (Except.ok.inj (Prod.mk.inj h).1).symm
  setThreadContext_ok h := (Prod.mk.inj h).2.symm
  setThreadContext_error h := by cases (Prod.mk.inj h).1

/-- A debuggee on which every other call fails. -/
def refusing : NativeDebuggee (Impl (U32 → DebugRegisters)) where
  attach _ := throw "DebugActiveProcess failed"
  detach := throw "DebugActiveProcessStop failed"
  waitEvent _ := throw "WaitForDebugEvent failed"
  resume := throw "ContinueDebugEvent failed"
  resumeSingleStep := throw "ContinueDebugEvent failed"
  requestStop := throw "DebugBreakProcess failed"
  readRegisters _ := throw "GetThreadContext failed"
  writeRegisters _ _ := throw "SetThreadContext failed"
  readMemory _ _ := throw "ReadProcessMemory failed"
  writeMemory _ _ := throw "WriteProcessMemory failed"
  setHwExecBp _ _ := throw "SetThreadContext failed"
  clearHwBp _ := throw "SetThreadContext failed"
  primaryThread d := d.primaryTid

/-- The debuggee with its debug registers. -/
def ready : NativeDebuggee (Audited (Impl (U32 → DebugRegisters))) :=
  (refusing.withDebugRegisters readyApi).audit

/-- A backend attached to it. -/
def readyBackend : NativeBackend (Audited (Impl (U32 → DebugRegisters))) :=
  { attached := true, debuggee := { debuggee := { os := fun _ => {}, primaryTid := 1 } } }

/-- The backend with a hardware breakpoint set. -/
def withHardware (addr : U64) (b : NativeBackend (Audited (Impl (U32 → DebugRegisters)))) :
    NativeBackend (Audited (Impl (U32 → DebugRegisters))) :=
  ((setBreakpoint ready .hardwareExec addr 1).outcome b).2

/-- The backend with a hardware breakpoint removed. -/
def withoutHardware (addr : U64) (b : NativeBackend (Audited (Impl (U32 → DebugRegisters)))) :
    NativeBackend (Audited (Impl (U32 → DebugRegisters))) :=
  ((removeBreakpoint ready .hardwareExec addr 1).outcome b).2

/-- A breakpoint is set and removed again. -/
def churned (addr : U64) (b : NativeBackend (Audited (Impl (U32 → DebugRegisters)))) :
    NativeBackend (Audited (Impl (U32 → DebugRegisters))) :=
  withoutHardware addr (withHardware addr b)

theorem accounted_ready :
    Reflects {} ((withHardware 0x1000 readyBackend).debuggee.debuggee.registers id)
        (armed (withHardware 0x1000 readyBackend).debuggee.log) ∧
      (Accounted (withHardware 0x1000 readyBackend) ∧
          RefusedOnlyFull ready (withHardware 0x1000 readyBackend) ↔
        Apart (withHardware 0x1000 readyBackend).debuggee.log ∧
          (used (withHardware 0x1000 readyBackend).debuggee.log < 4 ∨
            Lossless (withHardware 0x1000 readyBackend).debuggee.log)) := by
  have hrun : Sessions (refusing.withDebugRegisters readyApi).audit (fun _ op _ => op.IsHardware)
      readyBackend (withHardware 0x1000 readyBackend) :=
    .call (.set .hardwareExec 0x1000 1) .start trivial rfl
  exact Sessions.accounted_iff works_ready rfl rfl rfl rfl hrun

/-- In general neither half holds: a second breakpoint at `0x1000` leaves slot 0 enabled and
forgotten, and a fifth breakpoint is refused after four have been set and removed. -/
theorem not_accounted_ready :
    (∃ b, Sessions ready (fun _ op _ => op.IsHardware) readyBackend b ∧ ¬ Accounted b) ∧
      ∃ b, Sessions ready (fun _ op _ => op.IsHardware) readyBackend b ∧
        ¬ RefusedOnlyFull ready b := by
  have hset : ∀ {b} (addr : U64), Sessions ready (fun _ op _ => op.IsHardware) readyBackend b →
      Sessions ready (fun _ op _ => op.IsHardware) readyBackend (withHardware addr b) :=
    fun addr h => .call (.set .hardwareExec addr 1) h trivial rfl
  have hchurned : ∀ {b} (addr : U64), Sessions ready (fun _ op _ => op.IsHardware) readyBackend b →
      Sessions ready (fun _ op _ => op.IsHardware) readyBackend (churned addr b) :=
    fun addr h => .call (.remove .hardwareExec addr 1) (hset addr h) trivial rfl
  constructor
  · refine ⟨_, hset 0x1000 (hset 0x1000 .start), fun h => ?_⟩
    obtain ⟨addr, haddr⟩ := (h.enabled_iff 0).mp (by decide)
    have htable : (withHardware 0x1000 (withHardware 0x1000 readyBackend)).hwBpSlot =
        ((∅ : Std.ExtTreeMap U64 ℤ).insert 0x1000 0).insert 0x1000 1 := rfl
    rw [htable] at haddr
    by_cases hsame : 0x1000#64 = addr
    · simp [hsame] at haddr
    · simp [hsame] at haddr
  · refine ⟨_, hchurned 0x1000 (hchurned 0x1000 (hchurned 0x1000 (hchurned 0x1000 .start))),
      fun h => ?_⟩
    exact h 0x1000 1 rfl 0 (by unfold IsSlot; decide) (by decide)

end Irida.NativeBackend
