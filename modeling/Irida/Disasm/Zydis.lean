import Irida.Disasm.Instruction

/-!
# The Zydis-backed disassembler

`zydis_disassembler.cpp`: how a decoded instruction of Zydis becomes an
`Instruction`.  Zydis itself is not part of the repository; the functions of it
that are called are the fields of `Zydis`, and what is assumed about them is
stated where it is used.
-/

namespace Irida.Disasm

/-! ## The Zydis interface -/

/-- `ZydisRegister`: the two registers that are compared against, and the others. -/
inductive ZydisRegister
  | none
  | rip
  | other (code : ℕ)
  deriving DecidableEq, Repr

/-- `ZydisDecodedOperand`: a type and the member of the union that goes with it. -/
inductive ZydisDecodedOperand
  | register (value : ZydisRegister)
  | memory (base index : ZydisRegister) (scale : Byte) (hasDisplacement : Bool)
      (displacement : U64)
  | immediate (value : U64) (isRelative : Bool)
  | pointer (segment : BitVec 16) (offset : U32)
  | unused
  deriving DecidableEq, Repr

/-- `meta.category`, as far as it is told apart. -/
inductive ZydisCategory
  | call
  | ret
  | uncondBr
  | condBr
  | other
  deriving DecidableEq, Repr

/-- `ZydisDecodedInstruction`. -/
structure ZydisDecodedInstruction where
  length : Byte
  mnemonic : ℕ
  category : ZydisCategory
  operandCountVisible : Byte
  deriving DecidableEq, Repr

/-- The functions of Zydis that are called, with a decoder for 64-bit code and an
Intel-style formatter.  `none` is a failure status or a null string. -/
structure Zydis where
  decoderDecodeFull : Bytes → Option (ZydisDecodedInstruction × List ZydisDecodedOperand)
  mnemonicGetString : ℕ → Option String
  registerGetString : ZydisRegister → Option String
  formatterFormatInstruction :
    ZydisDecodedInstruction → List ZydisDecodedOperand → U64 → Option String
  calcAbsoluteAddress : ZydisDecodedInstruction → ZydisDecodedOperand → U64 → Option U64

/-! ## Mapping -/

/-- `register_name`. -/
def registerName (zydis : Zydis) (reg : ZydisRegister) : String :=
  (zydis.registerGetString reg).getD ""

/-- `map_operand`. -/
def mapOperand (zydis : Zydis) : ZydisDecodedOperand → Operand
  | .register value => { kind := .register, reg := registerName zydis value }
  | .memory base index scale hasDisplacement displacement =>
    { kind := .memory
      mem :=
        { base := if base ≠ .none then registerName zydis base else ""
          index := if index ≠ .none then registerName zydis index else ""
          scale := if index ≠ .none then scale else 1
          disp := if hasDisplacement then displacement else 0
          ripRelative := base = .rip } }
  | .immediate value _ => { kind := .immediate, imm := value }
  | .pointer segment offset =>
    { kind := .pointer, imm := segment.setWidth 64 <<< 32 ||| offset.setWidth 64 }
  | .unused => { kind := .unknown }

/-- `classify_flow`. -/
def classifyFlow (insn : ZydisDecodedInstruction) : Flow :=
  match insn.category with
  | .call => .call
  | .ret => .ret
  | .uncondBr => .jump
  | .condBr => .condJump
  | .other => .sequential

/-- The operands that the visible count admits. -/
def visibleOperands (insn : ZydisDecodedInstruction) (operands : List ZydisDecodedOperand) :
    List ZydisDecodedOperand :=
  operands.take insn.operandCountVisible.toNat

/-- `operands[i].type == ZYDIS_OPERAND_TYPE_IMMEDIATE`. -/
def ZydisDecodedOperand.isImmediate : ZydisDecodedOperand → Bool
  | .immediate _ _ => true
  | .register _ | .memory _ _ _ _ _ | .pointer _ _ | .unused => false

/-- `out.branch_target`: the first immediate operand of a transfer, resolved. -/
def branchTarget (zydis : Zydis) (insn : ZydisDecodedInstruction)
    (operands : List ZydisDecodedOperand) (address : U64) : U64 :=
  match classifyFlow insn with
  | .jump | .condJump | .call =>
    match (visibleOperands insn operands).find? ZydisDecodedOperand.isImmediate with
    | none => 0
    | some op => (zydis.calcAbsoluteAddress insn op address).getD 0
  | .ret | .sequential => 0

/-- `ZydisDisassembler::decode_one`. -/
def decodeOne (zydis : Zydis) (bytes : Bytes) (address : U64) : Result Instruction :=
  match zydis.decoderDecodeFull bytes with
  | none => .error "failed to decode instruction"
  | some (insn, operands) =>
    .ok
      { address := address
        length := insn.length.setWidth 32
        mnemonic := (zydis.mnemonicGetString insn.mnemonic).getD ""
        text := (zydis.formatterFormatInstruction insn (visibleOperands insn operands)
          address).getD ""
        operands := (visibleOperands insn operands).map (mapOperand zydis)
        flow := classifyFlow insn
        branchTarget := branchTarget zydis insn operands address }

/-- `make_x86_64_disassembler`. -/
def zydisDisassembler (zydis : Zydis) : Disassembler where
  decodeOne := decodeOne zydis

/-- The disassembler is lawful if Zydis consumes at least one of the bytes and no
more than it was given. -/
theorem zydisDisassembler_lawful {zydis : Zydis}
    (hlength : ∀ {bytes insn operands}, zydis.decoderDecodeFull bytes = some (insn, operands) →
      0 < insn.length.toNat ∧ insn.length.toNat ≤ bytes.length) :
    (zydisDisassembler zydis).Lawful := by
  have hdecode : ∀ {bytes pc insn}, decodeOne zydis bytes pc = .ok insn →
      insn.address = pc ∧ 0 < insn.length.toNat ∧ insn.length.toNat ≤ bytes.length := by
    intro bytes pc insn h
    unfold decodeOne at h
    split at h
    · cases h
    · next decoded operands hfull =>
        cases h
        have hlen := hlength hfull
        have hsmall := decoded.length.isLt
        refine ⟨rfl, ?_⟩
        rw [BitVec.toNat_setWidth, Nat.mod_eq_of_lt (by omega)]
        exact hlen
  exact ⟨fun h => (hdecode h).1, fun h => (hdecode h).2.1, fun h => (hdecode h).2.2⟩

end Irida.Disasm
