import Irida.Base

/-!
# Decoded instructions

`instruction.hpp` and `disassembler.hpp`: the structured instruction that
everything above the disassembler works on, and the disassembler interface.
`decode_one` is a parameter here; `Zydis.lean` gives the implementation.
-/

namespace Irida.Disasm

/-- `OperandKind`. -/
inductive OperandKind
  | register
  | memory
  | immediate
  | pointer
  | unknown
  deriving DecidableEq, Repr

/-- `Flow`, the control-flow class of an instruction. -/
inductive Flow
  | sequential
  | jump
  | condJump
  | call
  | ret
  deriving DecidableEq, Repr

/-- `MemoryOperand`: `[base + index*scale + disp]`. -/
structure MemoryOperand where
  base : String := ""
  index : String := ""
  scale : Byte := 1
  disp : U64 := 0
  ripRelative : Bool := false
  deriving DecidableEq, Repr

/-- `Operand`. -/
structure Operand where
  kind : OperandKind := .unknown
  reg : String := ""
  mem : MemoryOperand := {}
  imm : U64 := 0
  deriving DecidableEq, Repr

/-- `Instruction`.  `branchTarget` is the absolute target of a direct transfer
and `0` otherwise. -/
structure Instruction where
  address : U64 := 0
  length : U32 := 0
  mnemonic : String := ""
  text : String := ""
  operands : List Operand := []
  flow : Flow := .sequential
  branchTarget : U64 := 0
  deriving DecidableEq, Repr

namespace Instruction

/-- `insn.address + insn.length`. -/
def next (insn : Instruction) : U64 :=
  insn.address + insn.length.setWidth 64

/-- An instruction that does not reach past the end of the address space is
followed by a larger address. -/
theorem toNat_next {insn : Instruction}
    (h : insn.address.toNat + insn.length.toNat < 2 ^ 64) :
    insn.next.toNat = insn.address.toNat + insn.length.toNat := by
  unfold next
  rw [BitVec.toNat_add, BitVec.toNat_setWidth]
  omega

end Instruction

/-- The `Disassembler` interface. -/
structure Disassembler where
  decodeOne : Bytes → U64 → Result Instruction

/-- `decode_linear`: up to `max` instructions, stopping at the end of the buffer
or at the first bytes that do not decode. -/
def Disassembler.decodeLinear (disasm : Disassembler) :
    ℕ → Bytes → U64 → List Instruction
  | 0, _, _ => []
  | max + 1, bytes, address =>
    if bytes.length = 0 then []
    else
      match disasm.decodeOne bytes address with
      | .error _ => []
      | .ok insn =>
        insn :: disasm.decodeLinear max (bytes.drop insn.length.toNat)
          (address + insn.length.setWidth 64)

/-- What the analyzer relies on: an instruction carries the address it was
decoded at and consumes at least one of the bytes supplied, and no more. -/
structure Disassembler.Lawful (disasm : Disassembler) : Prop where
  address_eq : ∀ {bytes pc insn}, disasm.decodeOne bytes pc = .ok insn → insn.address = pc
  length_pos : ∀ {bytes pc insn}, disasm.decodeOne bytes pc = .ok insn → 0 < insn.length.toNat
  length_le : ∀ {bytes pc insn}, disasm.decodeOne bytes pc = .ok insn →
    insn.length.toNat ≤ bytes.length

end Irida.Disasm
