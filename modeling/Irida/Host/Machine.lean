import Mathlib.Logic.Function.Basic
import Irida.Host.Context
import Irida.Host.NativeDebuggee

/-!
# A debuggee that runs

A thread with its memory, as a debuggee: what the processor does with an
instruction is a parameter, except for the byte `0xCC`, which traps.  The machine
keeps a record of the states in which it began an instruction.

The thread is free to run for as long as it likes between two traps; here it gets
a number of steps, and a wait that takes longer has not returned.
-/

namespace Irida.Host

/-- Registers and memory. -/
@[ext]
structure ArchState where
  ctx : Context
  mem : U64 → Byte

/-- Whether the thread is stopped with a debug event pending, and how it was resumed
if it is not. -/
inductive RunMode
  | stopped
  | running
  | stepping
  deriving DecidableEq, Repr

structure Machine where
  arch : ArchState
  mode : RunMode := .stopped
  /-- the states in which an instruction was begun -/
  begun : List ArchState := []

/-- The address of the next instruction. -/
def ArchState.rip (s : ArchState) : U64 :=
  s.ctx.rip

/-- The breakpoint instruction. -/
def int3 : Byte := 0xCC

/-- The next instruction traps. -/
def ArchState.Traps (s : ArchState) : Prop :=
  s.mem s.rip = int3

instance (s : ArchState) : Decidable s.Traps :=
  inferInstanceAs (Decidable (_ = _))

/-- The memory after these bytes were written from an address on. -/
def writeBytes (mem : U64 → Byte) : U64 → Bytes → U64 → Byte
  | _, [] => mem
  | addr, b :: bs => writeBytes (Function.update mem addr b) (addr + 1) bs

namespace Machine

def withCtx (m : Machine) (ctx : Context) : Machine :=
  { m with arch := { m.arch with ctx := ctx } }

def withMem (m : Machine) (mem : U64 → Byte) : Machine :=
  { m with arch := { m.arch with mem := mem } }

def withMode (m : Machine) (mode : RunMode) : Machine :=
  { m with mode := mode }

section

variable (exec : ArchState → ArchState)

/-- One instruction: a trap only leaves `rip` one past it. -/
def next (s : ArchState) : ArchState :=
  if s.Traps then { s with ctx := s.ctx.withRip (s.rip + 1) } else exec s

/-- The thread that `primary_thread` names. -/
def primaryTid : U32 := 1

/-- The event that a thread raises with one instruction under the trap flag. -/
def stepEvent (s : ArchState) : DbgEvent :=
  if s.Traps then
    { kind := .breakpoint, threadId := primaryTid, address := s.rip, code := 0x80000003 }
  else
    { kind := .singleStep, threadId := primaryTid, address := (next exec s).rip,
      code := 0x80000004 }

/-- Begin and finish one instruction. -/
def execute (mode : RunMode) (m : Machine) : Machine :=
  { arch := next exec m.arch, mode := mode, begun := m.begun ++ [m.arch] }

/-- Run for at most that many instructions, or up to a trap. -/
def runUntilTrap : ℕ → Machine → Option DbgEvent × Machine
  | 0, m => (none, m)
  | n + 1, m =>
    if m.arch.Traps then (some (stepEvent exec m.arch), m.execute exec .stopped)
    else runUntilTrap n (m.execute exec .running)

/-- The machine as a debuggee.  It has no debug registers that stop it, and is not
stopped from outside. -/
def debuggee (fuel : ℕ) : NativeDebuggee Machine where
  attach _ m := (.ok (), m)
  detach m := (.ok (), m)
  waitEvent _ m :=
    match m.mode with
    | .stopped => (.error "WaitForDebugEvent failed", m)
    | .stepping => (.ok (stepEvent exec m.arch), m.execute exec .stopped)
    | .running =>
      match m.runUntilTrap exec fuel with
      | (some event, m) => (.ok event, m)
      | (none, m) => (.error "WaitForDebugEvent failed", m)
  resume m :=
    if m.mode = .stopped then (.ok (), m.withMode .running)
    else (.error "resume: no pending debug event", m)
  resumeSingleStep m :=
    if m.mode = .stopped then (.ok (), m.withMode .stepping)
    else (.error "resume_single_step: no pending debug event", m)
  requestStop m := (.error "DebugBreakProcess failed", m)
  readRegisters _ m := (.ok (contextToBlock m.arch.ctx), m)
  writeRegisters _ block m :=
    if block.length < kRegBlockSize then (.error "write_registers: block too small", m)
    else (.ok (), m.withCtx (blockToContext block m.arch.ctx))
  readMemory addr len m :=
    (.ok ((List.range len.toNat).map fun i => m.arch.mem (addr + BitVec.ofNat 64 i)), m)
  writeMemory addr data m :=
    (.ok (), m.withMem (writeBytes m.arch.mem addr data))
  setHwExecBp _ _ m := (.error "SetThreadContext failed", m)
  clearHwBp _ m := (.error "SetThreadContext failed", m)
  primaryThread _ := primaryTid

end

variable {exec : ArchState → ArchState} {s : ArchState} {m : Machine} {fuel : ℕ}

theorem next_of_traps (h : s.Traps) :
    next exec s = { s with ctx := s.ctx.withRip (s.rip + 1) } :=
  if_pos h

theorem next_of_not_traps (h : ¬ s.Traps) : next exec s = exec s :=
  if_neg h

theorem stepEvent_of_traps (h : s.Traps) :
    (stepEvent exec s).kind = .breakpoint ∧ (stepEvent exec s).address = s.rip := by
  simp [stepEvent, h]

/-! ## Running to a trap -/

/-- Left to run from `start`, the thread comes to its next trap in the state `s`. -/
inductive ComesTo (exec : ArchState → ArchState) : ArchState → ArchState → Prop
  | trap {s : ArchState} (h : s.Traps) : ComesTo exec s s
  | step {start s : ArchState} (h : ¬ start.Traps) (hrest : ComesTo exec (next exec start) s) :
      ComesTo exec start s

theorem ComesTo.traps {start : ArchState} (h : ComesTo exec start s) : s.Traps := by
  induction h with
  | trap h => exact h
  | step _ _ ih => exact ih

/-- There is one state in which the thread comes to its next trap. -/
theorem ComesTo.unique {start s' : ArchState} (h : ComesTo exec start s)
    (h' : ComesTo exec start s') : s = s' := by
  induction h with
  | trap htraps =>
      cases h' with
      | trap => rfl
      | step hnot => exact absurd htraps hnot
  | step hnot _ ih =>
      cases h' with
      | trap htraps => exact absurd htraps hnot
      | step _ hrest => exact ih hrest

/-- A run that ends has executed the trap that the thread came to. -/
theorem runUntilTrap_eq_some {event : DbgEvent} {m' : Machine} :
    ∀ {fuel : ℕ} {m : Machine}, m.runUntilTrap exec fuel = (some event, m') →
      ∃ m₁ : Machine, ComesTo exec m.arch m₁.arch ∧ event = stepEvent exec m₁.arch ∧
        m' = m₁.execute exec .stopped := by
  intro fuel
  induction fuel with
  | zero =>
      intro m hrun
      cases (Prod.mk.inj hrun).1
  | succ fuel ih =>
      intro m hrun
      rw [runUntilTrap] at hrun
      by_cases htraps : m.arch.Traps
      · rw [if_pos htraps] at hrun
        obtain ⟨hevent, rfl⟩ := Prod.mk.inj hrun
        exact ⟨m, .trap htraps, (Option.some.inj hevent).symm, rfl⟩
      · rw [if_neg htraps] at hrun
        obtain ⟨m₁, hcomes, hevent, rfl⟩ := ih hrun
        exact ⟨m₁, .step htraps hcomes, hevent, rfl⟩

/-! ## The host calls -/

@[simp] theorem debuggee_readMemory_one (addr : U64) :
    ((debuggee exec fuel).readMemory addr 1).outcome m = (.ok [m.arch.mem addr], m) := by
  simp [debuggee, Call.outcome]

@[simp] theorem debuggee_writeMemory_one (addr : U64) (b : Byte) :
    ((debuggee exec fuel).writeMemory addr [b]).outcome m =
      (.ok (), m.withMem (Function.update m.arch.mem addr b)) :=
  rfl

@[simp] theorem debuggee_readRegisters (tid : U32) :
    ((debuggee exec fuel).readRegisters tid).outcome m = (.ok (contextToBlock m.arch.ctx), m) :=
  rfl

theorem debuggee_writeRegisters (tid : U32) (c : Context) (h : c.rest = m.arch.ctx.rest) :
    ((debuggee exec fuel).writeRegisters tid (contextToBlock c)).outcome m =
      (.ok (), m.withCtx c) := by
  -- the block names every register but those of `rest`, which are kept
  have hback : blockToContext (contextToBlock c) m.arch.ctx = c := by
    rw [blockToContext_contextToBlock, ← h]
  simp [debuggee, Call.outcome, hback]

theorem debuggee_resumeSingleStep (h : m.mode = .stopped) :
    (debuggee exec fuel).resumeSingleStep.outcome m = (.ok (), m.withMode .stepping) := by
  simp [debuggee, Call.outcome, h]

theorem debuggee_resume (h : m.mode = .stopped) :
    (debuggee exec fuel).resume.outcome m = (.ok (), m.withMode .running) := by
  simp [debuggee, Call.outcome, h]

theorem debuggee_resume_eq_ok {m' : Machine}
    (h : (debuggee exec fuel).resume.outcome m = (.ok (), m')) :
    m.mode = .stopped ∧ m' = m.withMode .running := by
  by_cases hmode : m.mode = .stopped
  · rw [debuggee_resume hmode] at h
    exact ⟨hmode, (Prod.mk.inj h).2.symm⟩
  · simp [debuggee, Call.outcome, hmode] at h

theorem debuggee_resumeSingleStep_error (h : m.mode ≠ .stopped) :
    (debuggee exec fuel).resumeSingleStep.outcome m =
      (.error "resume_single_step: no pending debug event", m) := by
  simp [debuggee, Call.outcome, h]

theorem debuggee_resume_error (h : m.mode ≠ .stopped) :
    (debuggee exec fuel).resume.outcome m = (.error "resume: no pending debug event", m) := by
  simp [debuggee, Call.outcome, h]

theorem debuggee_waitEvent_running_some (timeout : ℤ) {event : DbgEvent} {m' : Machine}
    (h : m.mode = .running) (hrun : m.runUntilTrap exec fuel = (some event, m')) :
    ((debuggee exec fuel).waitEvent timeout).outcome m = (.ok event, m') := by
  simp [debuggee, Call.outcome, h, hrun]

theorem debuggee_waitEvent_running_none (timeout : ℤ) {m' : Machine} (h : m.mode = .running)
    (hrun : m.runUntilTrap exec fuel = (none, m')) :
    ((debuggee exec fuel).waitEvent timeout).outcome m =
      (.error "WaitForDebugEvent failed", m') := by
  simp [debuggee, Call.outcome, h, hrun]

/-- A wait that is over while the thread runs has seen it come to a trap. -/
theorem debuggee_waitEvent_running_eq_ok {timeout : ℤ} {event : DbgEvent} {m' : Machine}
    (h : m.mode = .running)
    (hwait : ((debuggee exec fuel).waitEvent timeout).outcome m = (.ok event, m')) :
    ∃ m₁ : Machine, ComesTo exec m.arch m₁.arch ∧ event = stepEvent exec m₁.arch ∧
      m' = m₁.execute exec .stopped := by
  rcases hrun : m.runUntilTrap exec fuel with ⟨_ | event', m₂⟩
  · rw [debuggee_waitEvent_running_none timeout h hrun] at hwait
    cases (Prod.mk.inj hwait).1
  · rw [debuggee_waitEvent_running_some timeout h hrun] at hwait
    obtain ⟨hevent, rfl⟩ := Prod.mk.inj hwait
    obtain rfl := Except.ok.inj hevent
    exact runUntilTrap_eq_some hrun

theorem debuggee_waitEvent_stepping (timeout : ℤ) (h : m.mode = .stepping) :
    ((debuggee exec fuel).waitEvent timeout).outcome m =
      (.ok (stepEvent exec m.arch), m.execute exec .stopped) := by
  simp [debuggee, Call.outcome, h]

end Machine

end Irida.Host
