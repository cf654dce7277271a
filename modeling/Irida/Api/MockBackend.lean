import Irida.Api.BackendVTable

/-!
# The mock backend

`mock_backend.cpp` is the backend of a window without a process: a canned stream of instructions
that the program counter walks, and registers that some of the operations count up.
-/

namespace Irida.Api

/-- What the operations read of `Insn`. -/
structure MockInsn where
  address : U64
  isCall : Bool
  deriving DecidableEq, Repr

/-- `kStream`. -/
def kStream : List MockInsn :=
  [⟨0x00007FF751FA2440, false⟩, ⟨0x00007FF751FA2444, false⟩, ⟨0x00007FF751FA244B, false⟩,
    ⟨0x00007FF751FA244D, true⟩, ⟨0x00007FF751FA244F, true⟩, ⟨0x00007FF751FA2454, false⟩,
    ⟨0x00007FF751FA2457, false⟩, ⟨0x00007FF751FA2459, false⟩]

/-- The address of the instruction with an index, which is below `kStreamLen`. -/
def streamAddress (i : ℕ) : U64 :=
  (kStream[i]?.map MockInsn.address).getD 0

/-- `kStreamLen`. -/
def kStreamLen : ℕ :=
  kStream.length

/-- `regs`: the registers of `Reg`. -/
structure MockRegs where
  rax : U64
  rbx : U64
  rcx : U64
  rdx : U64
  rsp : U64
  rbp : U64
  rsi : U64
  rdi : U64
  r8 : U64
  r9 : U64
  r15 : U64
  deriving DecidableEq, Repr

/-- `reset_regs`. -/
def resetRegs : MockRegs where
  rax := 0x00007ff6abcd0000
  rbx := 0
  rcx := 0x10
  rdx := 0
  rsp := 0x000000000014fe00
  rbp := 0x000000000014ff00
  rsi := 0
  rdi := 0
  r8 := 0
  r9 := 0
  r15 := 0

/-- The fields of `IridaBreakpoint` that the backend reads. -/
structure MockBreakpoint where
  address : U64
  enabled : Bool := true
  deriving DecidableEq, Repr

/-- The fields of `MockState` that the operations read or write. -/
structure MockState where
  pc : U64 := streamAddress 0
  epoch : U64 := 1
  ipIndex : ℕ := 0
  regs : MockRegs := resetRegs
  bps : List MockBreakpoint := []
  deriving DecidableEq, Repr

namespace MockState

variable (s : MockState)

/-- `find_index`. -/
def findIndex : MockState :=
  match kStream.findIdx? fun insn => insn.address == s.pc with
  | some i => { s with ipIndex := i }
  | none => s

/-- `advance_one`. -/
def advanceOne : MockState :=
  let s := s.findIndex
  { s with
    regs := { s.regs with rax := s.regs.rax + 0x10, rcx := s.regs.rcx + 1 }
    pc := if s.ipIndex + 1 < kStreamLen then streamAddress (s.ipIndex + 1) else s.pc
    epoch := s.epoch + 1 }

/-- `mock_step_over`. -/
def stepOver : MockState :=
  let s := s.findIndex
  let isCall := (kStream[s.ipIndex]?.map MockInsn.isCall).getD false
  if isCall = true ∧ s.ipIndex + 1 < kStreamLen then
    { s with
      pc := streamAddress (s.ipIndex + 1)
      regs := { s.regs with rax := s.regs.rax + 0x10 }
      epoch := s.epoch + 1 }
  else s.advanceOne

/-- `mock_step_out`. -/
def stepOut : MockState :=
  { s with pc := streamAddress (kStreamLen - 1), epoch := s.epoch + 1 }

/-- `mock_cont`. -/
def cont : MockState :=
  let target := streamAddress (kStreamLen - 1)
  let uint64Max : U64 := 0xffffffffffffffff
  let best := s.bps.foldl (fun best b =>
    if b.enabled = true ∧ s.pc < b.address ∧ b.address < best then b.address else best) uint64Max
  { s with pc := if best ≠ uint64Max then best else target, epoch := s.epoch + 1 }

/-- `mock_brk`. -/
def brk : MockState :=
  { s with epoch := s.epoch + 1 }

/-- `mock_restart`, and `mock_stop`. -/
def restart : MockState :=
  { s with pc := streamAddress 0, regs := resetRegs, epoch := s.epoch + 1 }

/-- `mock_bp_toggle`. -/
def bpToggle (addr : U64) : MockState :=
  match s.bps.findIdx? fun b => b.address == addr with
  | some i => { s with bps := s.bps.eraseIdx i }
  | none => { s with bps := s.bps ++ [{ address := addr }] }

/-- `mock_bp_set_enabled`. -/
def bpSetEnabled (addr : U64) (enabled : Bool) : MockState :=
  { s with bps := s.bps.map fun b => if b.address = addr then { b with enabled := enabled } else b }

/-- `mock_registers`. -/
def registers : List RegisterRow :=
  [{ name := "rax", value := s.regs.rax, hint := some "-> module base (ntdll.dll)" },
    { name := "rbx", value := s.regs.rbx }, { name := "rcx", value := s.regs.rcx },
    { name := "rdx", value := s.regs.rdx }, { name := "rsp", value := s.regs.rsp },
    { name := "rbp", value := s.regs.rbp }, { name := "rsi", value := s.regs.rsi },
    { name := "rdi", value := s.regs.rdi }, { name := "r8", value := s.regs.r8 },
    { name := "r9", value := s.regs.r9 }, { name := "r15", value := s.regs.r15 }]

end MockState

/-- The entries of the vtable of the mock. -/
def mockVTable : BackendVTable MockState where
  registers := some MockState.registers
  stateEpoch := some MockState.epoch
  stepInto := some MockState.advanceOne
  stepOver := some MockState.stepOver
  stepOut := some MockState.stepOut
  cont := some MockState.cont
  brk := some MockState.brk
  restart := some MockState.restart
  stop := some MockState.restart
  bpToggle := some fun addr s => s.bpToggle addr
  bpSetEnabled := some fun addr enabled s => s.bpSetEnabled addr enabled
  analyze := some id

/-! ## The mock counts its stops -/

section Stops

variable (s : MockState)

theorem epoch_findIndex : s.findIndex.epoch = s.epoch := by
  unfold MockState.findIndex
  split <;> rfl

theorem epoch_advanceOne : s.advanceOne.epoch = s.epoch + 1 :=
  congrArg (· + 1) (epoch_findIndex s)

theorem epoch_stepOver : s.stepOver.epoch = s.epoch + 1 := by
  unfold MockState.stepOver
  dsimp only
  split
  · exact congrArg (· + 1) (epoch_findIndex s)
  · rw [epoch_advanceOne, epoch_findIndex]

theorem epoch_control {op : ControlOp} {f : MockState → MockState}
    (h : mockVTable.entry (.control op) = some f) : (f s).epoch = s.epoch + 1 := by
  cases op <;> obtain rfl := Option.some.inj h
  case stepInto => exact epoch_advanceOne s
  case stepOver => exact epoch_stepOver s
  all_goals rfl

theorem same_call {c : SessionCall} {f : MockState → MockState} (h : mockVTable.entry c = some f)
    (hc : ∀ op, c ≠ .control op) : (f s).epoch = s.epoch ∧ (f s).regs = s.regs := by
  rcases c with op | addr | ⟨addr, enabled⟩ | _
  · exact absurd rfl (hc op)
  · obtain rfl := Option.some.inj h
    show (s.bpToggle addr).epoch = s.epoch ∧ (s.bpToggle addr).regs = s.regs
    unfold MockState.bpToggle
    split <;> exact ⟨rfl, rfl⟩
  · obtain rfl := Option.some.inj h
    exact ⟨rfl, rfl⟩
  · obtain rfl := Option.some.inj h
    exact ⟨rfl, rfl⟩

end Stops

/-- **The sessions of the mock are stamped.** -/
theorem stamped_mock : Stamped mockVTable fun _ => True where
  live _ _ _ _ _ := trivial
  frozen c f hentry s _ hepoch := by
    by_cases hc : ∃ op, c = .control op
    · obtain ⟨op, rfl⟩ := hc
      have hsame : s.epoch + 1 = s.epoch := (epoch_control s hentry).symm.trans hepoch
      exact absurd hsame (by bv_omega)
    · have hregs := (same_call s hentry fun op hop => hc ⟨op, hop⟩).2
      show (f s).registers = s.registers
      rw [MockState.registers, hregs, MockState.registers]
  still c f hentry hc s _ := (same_call s hentry hc).1
  count s _ := by
    show 11 < 2 ^ 31
    decide

end Irida.Api
