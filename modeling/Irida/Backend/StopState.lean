import Irida.Backend.Transparency

/-!
# What a stop shows

Between the trap at a planted address and its reply, `cont` rewinds `rip`, restores the byte and
steps over the instruction.  So the registers that are read after the stop are those from after
the instruction (`cont_reads`), while the reply names the address of the instruction.

Both agree only if the instruction leaves all registers as they are (`cont_shows_iff`).
-/

namespace Irida.NativeBackend

open Host

section

variable {exec : ArchState → ArchState} {fuel : ℕ} {b b' : NativeBackend Machine}
  {reply : Backend.StopReply} {x : Byte}

theorem readRegisters_machine (hattached : b.attached = true) :
    (readRegisters (Machine.debuggee exec fuel)).outcome b =
      (.ok (contextToBlock b.debuggee.arch.ctx), b) := by
  rw [readRegisters, Call.outcome_bind_ok (requireAttached_outcome _ hattached),
    Call.outcome_bind_ok (onDbg_outcome_ok (Call.outcome_primary _ _))]
  exact onDbg_outcome_ok (Machine.debuggee_readRegisters _)

/-- The state at a breakpoint, with the saved byte back in its place. -/
def unplanted (s : ArchState) (x : Byte) : ArchState :=
  { s with mem := Function.update s.mem s.rip x }

/-- **What is read after a stop at a planted address**: the registers from after the instruction
there, which the thread had come to before the stop. -/
theorem cont_reads (h : (cont (Machine.debuggee exec fuel)).outcome b = (.ok reply, b'))
    (hplanted : b.saved reply.pc = some x) :
    ∃ s, Machine.ComesTo exec b.debuggee.arch s ∧ s.rip = reply.pc ∧
      (readRegisters (Machine.debuggee exec fuel)).outcome b' =
        (.ok (contextToBlock (Machine.next exec (unplanted s x)).ctx), b') := by
  obtain ⟨hattached, event, d, d', hresume, hwait, hreply⟩ := cont_eq_ok h
  obtain ⟨-, rfl⟩ := Machine.debuggee_resume_eq_ok hresume
  obtain ⟨m, hcomes, rfl, rfl⟩ := Machine.debuggee_waitEvent_running_eq_ok rfl hwait
  obtain ⟨hkind, haddress⟩ := @Machine.stepEvent_of_traps exec _ hcomes.traps
  obtain ⟨hrearm, -, hpc⟩ := translateStopAndRearm_eq_ok hreply
  rw [haddress] at hpc
  rw [rearm_planted hkind (by rw [haddress, ← hpc]; exact hplanted), haddress,
    onDbg_outcome_ok (stepOver_machine rfl _ _)] at hrearm
  obtain ⟨-, hstopped⟩ := Prod.mk.inj hrearm
  have hattached' : b'.attached = true := by
    rw [← hstopped]
    exact hattached
  -- the thread has executed the instruction before the byte was planted again
  have hctx : b'.debuggee.arch.ctx = (Machine.next exec (unplanted m.arch x)).ctx := by
    rw [← hstopped]
    exact congrArg (fun s => (Machine.next exec s).ctx) (rewound_execute hcomes.traps x)
  refine ⟨m.arch, hcomes, hpc.symm, ?_⟩
  rw [readRegisters_machine hattached', hctx]

/-- **When a stop shows the state before the instruction**: exactly if the instruction leaves all
registers as they are. -/
theorem cont_shows_iff (h : (cont (Machine.debuggee exec fuel)).outcome b = (.ok reply, b'))
    (hplanted : b.saved reply.pc = some x) :
    ∃ s, Machine.ComesTo exec b.debuggee.arch s ∧ s.rip = reply.pc ∧
      ((readRegisters (Machine.debuggee exec fuel)).outcome b' = (.ok (contextToBlock s.ctx), b') ↔
        (Machine.next exec (unplanted s x)).ctx.SameRegisters s.ctx) := by
  obtain ⟨s, hcomes, hrip, hread⟩ := cont_reads h hplanted
  refine ⟨s, hcomes, hrip, ?_⟩
  rw [hread, Prod.mk.injEq, Except.ok.injEq, contextToBlock_inj]
  simp

end

/-! ## Two programs -/

/-- A backend with a breakpoint at a jump to itself. -/
def spinBreakpoint : NativeBackend Machine :=
  withBreakpoint nopBackend 0

/-- The reply to a stop at the jump. -/
def spinReply : Backend.StopReply :=
  { kind := .breakpoint, signal := (0x80000003 : U32).toInt, pc := 0 }

/-- The jump to itself is shown as it is. -/
theorem cont_shows_spin :
    ∃ s, Machine.ComesTo id spinBreakpoint.debuggee.arch s ∧ s.rip = spinReply.pc ∧
      ((readRegisters (Machine.debuggee id 1)).outcome
          ((cont (Machine.debuggee id 1)).outcome spinBreakpoint).2 =
        (.ok (contextToBlock s.ctx), ((cont (Machine.debuggee id 1)).outcome spinBreakpoint).2) ↔
        (Machine.next id (unplanted s 0x90)).ctx.SameRegisters s.ctx) :=
  @cont_shows_iff id 1 spinBreakpoint _ spinReply 0x90 (Call.outcome_of_fst (by decide +kernel))
    (by decide +kernel)

/-- In general a stop shows the state after the instruction: the thread that comes to a two-byte
instruction at `0x1000` is shown at `0x1002`. -/
theorem not_cont_shows :
    ¬ ∀ (exec : ArchState → ArchState) (fuel : ℕ) (b b' : NativeBackend Machine)
      (reply : Backend.StopReply) (s : ArchState),
      (cont (Machine.debuggee exec fuel)).outcome b = (.ok reply, b') →
      reply.kind = .breakpoint → b.saved reply.pc ≠ none →
      Machine.ComesTo exec b.debuggee.arch s →
      (readRegisters (Machine.debuggee exec fuel)).outcome b' =
        (.ok (contextToBlock s.ctx), b') := by
  intro h
  have hshown := h strideTwo 1 strideBreakpoint
    ((cont (Machine.debuggee strideTwo 1)).outcome strideBreakpoint).2
    { kind := .breakpoint, signal := (0x80000003 : U32).toInt, pc := 0x1000 }
    strideBreakpoint.debuggee.arch (Call.outcome_of_fst (by decide +kernel)) rfl (by decide +kernel)
    (.trap (by decide +kernel))
  have hblock := congrArg Prod.fst hshown
  revert hblock
  decide +kernel

end Irida.NativeBackend
