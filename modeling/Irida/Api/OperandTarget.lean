import Irida.Disasm.Zydis

/-!
# The address an annotation is looked up at

`operand_target`, which the live and the static session each define the same way:
the address that is looked up in the symbol map for a row of the disassembly.

For a direct transfer that address is meant to be the branch target, but the
immediate operand still holds the displacement.  `operandTarget_eq_iff` says when
the two agree all the same.
-/

namespace Irida.Api

open Disasm

/-- `operand_target`. -/
def operandTarget (insn : Instruction) : Option U64 :=
  match insn.operands.find? fun op =>
      (op.kind = .immediate ∨ op.kind = .pointer) ∧ op.imm ≠ 0 with
  | some op => some op.imm
  | none =>
    match insn.operands.find? fun op => op.kind = .memory ∧ op.mem.ripRelative with
    | some op => some (insn.address + insn.length.setWidth 64 + op.mem.disp)
    | none => none

/-- An operand that names no address of its own: a register. -/
def namesNoAddress : ZydisDecodedOperand → Bool
  | .register _ | .unused => true
  | .memory _ _ _ _ _ | .immediate _ _ | .pointer _ _ => false

/-- A direct call or jump: the one visible operand that can name an address is
the relative displacement. -/
structure DirectTransfer (insn : ZydisDecodedInstruction) (operands : List ZydisDecodedOperand)
    (displacement : U64) : Prop where
  flow : classifyFlow insn = .jump ∨ classifyFlow insn = .condJump ∨ classifyFlow insn = .call
  visible : ∃ before after, (∀ op ∈ before, namesNoAddress op) ∧ (∀ op ∈ after, namesNoAddress op) ∧
    visibleOperands insn operands = before ++ .immediate displacement true :: after

section

variable {zydis : Zydis} {insn : ZydisDecodedInstruction} {operands : List ZydisDecodedOperand}
  {displacement address : U64}

private theorem find?_map_eq_none {before : List ZydisDecodedOperand} {p : Operand → Bool}
    (hbefore : ∀ op ∈ before, namesNoAddress op)
    (hp : ∀ op, namesNoAddress op → p (mapOperand zydis op) = false) :
    (before.map (mapOperand zydis)).find? p = none := by
  rw [List.find?_eq_none]
  intro op hop
  obtain ⟨zop, hzop, rfl⟩ := List.mem_map.mp hop
  simp [hp zop (hbefore zop hzop)]

/-- The branch target of a direct transfer, given how Zydis resolves it. -/
theorem branchTarget_of_direct (h : DirectTransfer insn operands displacement)
    (hcalc : zydis.calcAbsoluteAddress insn (.immediate displacement true) address =
      some (address + insn.length.setWidth 64 + displacement)) :
    branchTarget zydis insn operands address =
      address + insn.length.setWidth 64 + displacement := by
  obtain ⟨before, after, hbefore, -, hvisible⟩ := h.visible
  have hfirst : before.find? ZydisDecodedOperand.isImmediate = none := by
    rw [List.find?_eq_none]
    intro op hop himm
    have hnone := hbefore op hop
    cases op <;> simp_all [ZydisDecodedOperand.isImmediate, namesNoAddress]
  have hfind : (visibleOperands insn operands).find? ZydisDecodedOperand.isImmediate =
      some (.immediate displacement true) := by
    rw [hvisible, List.find?_append, hfirst, Option.none_or, List.find?_cons]
    rfl
  unfold branchTarget
  rcases h.flow with hflow | hflow | hflow <;> simp only [hflow, hfind, hcalc, Option.getD_some]

/-- The address that is looked up for a direct transfer is its displacement. -/
theorem operandTarget_of_direct {out : Instruction} (h : DirectTransfer insn operands displacement)
    (hout : out.operands = (visibleOperands insn operands).map (mapOperand zydis)) :
    operandTarget out = if displacement = 0 then none else some displacement := by
  obtain ⟨before, after, hbefore, hafter, hvisible⟩ := h.visible
  have hnot : ∀ op, namesNoAddress op →
      (mapOperand zydis op).kind ≠ .immediate ∧ (mapOperand zydis op).kind ≠ .pointer ∧
        (mapOperand zydis op).kind ≠ .memory := by
    intro op hop
    cases op <;> simp_all [mapOperand, namesNoAddress]
  rw [hvisible, List.map_append, List.map_cons] at hout
  unfold operandTarget
  rw [hout]
  simp only [List.find?_append, List.find?_cons]
  rw [find?_map_eq_none hbefore (by intro op hop; simp [hnot op hop]),
    find?_map_eq_none hafter (by intro op hop; simp [hnot op hop]),
    find?_map_eq_none hbefore (by intro op hop; simp [hnot op hop]),
    find?_map_eq_none hafter (by intro op hop; simp [hnot op hop])]
  by_cases hzero : displacement = 0#64
  · simp [mapOperand, hzero]
  · simp [mapOperand, hzero]

end

/-- **When the annotation of a direct transfer is looked up at its branch target**:
only if the displacement is not null and the instruction ends at the end of the
address space. -/
theorem operandTarget_eq_iff {zydis : Zydis} {bytes : Bytes} {address displacement : U64}
    {insn : ZydisDecodedInstruction} {operands : List ZydisDecodedOperand} {out : Instruction}
    (hcalc : ∀ insn displacement address,
      zydis.calcAbsoluteAddress insn (.immediate displacement true) address =
        some (address + insn.length.setWidth 64 + displacement))
    (hfull : zydis.decoderDecodeFull bytes = some (insn, operands))
    (hdirect : DirectTransfer insn operands displacement)
    (hout : decodeOne zydis bytes address = .ok out) :
    operandTarget out = some out.branchTarget ↔
      displacement ≠ 0 ∧ address + insn.length.setWidth 64 = 0 := by
  simp only [decodeOne, hfull, Except.ok.injEq] at hout
  subst hout
  rw [operandTarget_of_direct hdirect rfl]
  simp only [branchTarget_of_direct hdirect (hcalc insn displacement address)]
  by_cases hzero : displacement = 0
  · simp [hzero]
  · rw [if_neg hzero, Option.some.injEq]
    constructor
    · intro heq
      refine ⟨hzero, ?_⟩
      -- cancel the displacement
      have hsum : 0 + displacement = address + insn.length.setWidth 64 + displacement := by
        rw [← heq, zero_add]
      exact (add_right_cancel hsum).symm
    · rintro ⟨-, hend⟩
      rw [hend, zero_add]

/-! ## A direct call -/

/-- Zydis on `call rel32`, the only instruction decoded here. -/
def zydisCall : Zydis where
  decoderDecodeFull bytes :=
    match bytes with
    | opcode :: b0 :: b1 :: b2 :: b3 :: _ =>
      if opcode = 0xE8 then
        some (⟨5, 1, .call, 1⟩, [.immediate ((b3 ++ b2 ++ b1 ++ b0).signExtend 64) true])
      else none
    | _ => none
  mnemonicGetString _ := some "call"
  registerGetString _ := none
  formatterFormatInstruction _ _ _ := some "call"
  calcAbsoluteAddress insn op address :=
    match op with
    | .immediate displacement true => some (address + insn.length.setWidth 64 + displacement)
    | _ => none

/-- `call 0x1015`, at `0x1000`. -/
def callBytes : Bytes := [0xE8, 0x10, 0x00, 0x00, 0x00]

/-- What `decode_one` makes of it. -/
def callInsn : Instruction :=
  { address := 0x1000
    length := 5
    mnemonic := "call"
    text := "call"
    operands := [{ kind := .immediate, imm := 0x10 }]
    flow := .call
    branchTarget := 0x1015 }

private theorem call_direct :
    DirectTransfer ⟨5, 1, .call, 1⟩ [.immediate 0x10 true] 0x10 where
  flow := Or.inr (Or.inr rfl)
  visible := ⟨[], [], by simp, by simp, rfl⟩

theorem operandTarget_eq_iff_call : operandTarget callInsn = some callInsn.branchTarget ↔
    (0x10 : U64) ≠ 0 ∧ (0x1000 : U64) + (5 : Byte).setWidth 64 = 0 :=
  @operandTarget_eq_iff zydisCall callBytes 0x1000 0x10 _ _ callInsn (fun _ _ _ => rfl) rfl
    call_direct rfl

/-- The annotation of a direct call is looked up at its displacement. -/
theorem operandTarget_ne_branchTarget :
    (∀ insn displacement address,
      zydisCall.calcAbsoluteAddress insn (.immediate displacement true) address =
        some (address + insn.length.setWidth 64 + displacement)) ∧
    ∃ insn operands displacement out,
      zydisCall.decoderDecodeFull callBytes = some (insn, operands) ∧
      DirectTransfer insn operands displacement ∧
      decodeOne zydisCall callBytes 0x1000 = .ok out ∧
      out.branchTarget = 0x1015 ∧ operandTarget out = some 0x10 ∧
      operandTarget out ≠ some out.branchTarget :=
  ⟨fun _ _ _ => rfl, _, _, _, callInsn, rfl, call_direct, rfl, rfl, by decide, by decide⟩

end Irida.Api
