import Irida.Base
import Irida.Lib.LittleEndian

/-!
# Register profiles

`RegisterProfile` of `types.hpp`, and the profiles of the two backends: where in the raw register
block of a backend each register lies, and how wide it is.
-/

namespace Irida.Backend

/-- `RegisterField`. -/
structure RegisterField where
  name : String
  offset : ℕ := 0
  size : ℕ := 0
  deriving DecidableEq, Repr

/-- `RegisterProfile`. -/
structure RegisterProfile where
  fields : List RegisterField := []
  blockSize : ℕ := 0
  deriving DecidableEq, Repr

namespace RegisterField

variable (f : RegisterField)

/-- The bytes of a register block that belong to the field. -/
def bytes (block : Bytes) : Bytes :=
  (block.drop f.offset).take f.size

/-- The number in the field, the lowest byte first. -/
def value (block : Bytes) : U64 :=
  BitVec.ofNat 64 (LittleEndian.value (f.bytes block))

theorem length_bytes (block : Bytes) :
    (f.bytes block).length = min f.size (block.length - f.offset) := by
  rw [bytes, List.length_take, List.length_drop]

end RegisterField

/-- The loop that places one register after the other. -/
def placeFields (regs : List (String × ℕ)) (profile : RegisterProfile) : RegisterProfile :=
  regs.foldl (fun profile reg =>
    { fields := profile.fields ++ [⟨reg.1, profile.blockSize, reg.2⟩]
      blockSize := profile.blockSize + reg.2 }) profile

/-! ## The gdb backend -/

namespace GdbProfile

/-- `kQwordSize`. -/
def kQwordSize : ℕ := 8

/-- `kQwordRegs`. -/
def kQwordRegs : List (String × ℕ) :=
  [("rax", kQwordSize), ("rbx", kQwordSize), ("rcx", kQwordSize), ("rdx", kQwordSize),
    ("rsi", kQwordSize), ("rdi", kQwordSize), ("rbp", kQwordSize), ("rsp", kQwordSize),
    ("r8", kQwordSize), ("r9", kQwordSize), ("r10", kQwordSize), ("r11", kQwordSize),
    ("r12", kQwordSize), ("r13", kQwordSize), ("r14", kQwordSize), ("r15", kQwordSize),
    ("rip", kQwordSize)]

/-- `kEflagsName`. -/
def kEflagsName : String := "eflags"

/-- `kEflagsSize`. -/
def kEflagsSize : ℕ := 4

end GdbProfile

/-- `make_x86_64_gdb_profile`. -/
def makeX8664GdbProfile : RegisterProfile :=
  placeFields [(GdbProfile.kEflagsName, GdbProfile.kEflagsSize)]
    (placeFields GdbProfile.kQwordRegs {})

/-! ## The native backend -/

/-- `kSlotSize`. -/
def kSlotSize : ℕ := 8

/-- `kSlots`. -/
def kSlots : List (String × ℕ) :=
  [("rax", kSlotSize), ("rbx", kSlotSize), ("rcx", kSlotSize), ("rdx", kSlotSize),
    ("rsi", kSlotSize), ("rdi", kSlotSize), ("rbp", kSlotSize), ("rsp", kSlotSize),
    ("r8", kSlotSize), ("r9", kSlotSize), ("r10", kSlotSize), ("r11", kSlotSize),
    ("r12", kSlotSize), ("r13", kSlotSize), ("r14", kSlotSize), ("r15", kSlotSize),
    ("rip", kSlotSize), ("rflags", kSlotSize), ("cs", kSlotSize), ("ss", kSlotSize),
    ("ds", kSlotSize), ("es", kSlotSize), ("fs", kSlotSize), ("gs", kSlotSize),
    ("dr0", kSlotSize), ("dr1", kSlotSize), ("dr2", kSlotSize), ("dr3", kSlotSize),
    ("dr6", kSlotSize), ("dr7", kSlotSize), ("reserved0", kSlotSize), ("reserved1", kSlotSize)]

/-- `make_native_x86_64_profile`. -/
def makeNativeX8664Profile : RegisterProfile :=
  placeFields kSlots {}

/-! ## Fields one after the other -/

/-- Registers of one width, one after the other from an offset on. -/
def fieldsFrom (width : ℕ) : ℕ → List String → List RegisterField
  | _, [] => []
  | offset, name :: names => ⟨name, offset, width⟩ :: fieldsFrom width (offset + width) names

/-- The loop places registers of one width where `fieldsFrom` does. -/
theorem placeFields_eq (width : ℕ) (names : List String) (profile : RegisterProfile) :
    placeFields (names.map fun name => (name, width)) profile =
      { fields := profile.fields ++ fieldsFrom width profile.blockSize names
        blockSize := profile.blockSize + names.length * width } := by
  induction names generalizing profile with
  | nil => simp [placeFields, fieldsFrom]
  | cons name names ih =>
      refine (ih _).trans ?_
      simp only [fieldsFrom, List.append_assoc, List.singleton_append, List.length_cons,
        RegisterProfile.mk.injEq, true_and]
      rw [Nat.succ_mul, Nat.add_assoc, Nat.add_comm width]

theorem getElem?_fieldsFrom (width offset i : ℕ) (names : List String) :
    (fieldsFrom width offset names)[i]? =
      names[i]?.map fun name => ⟨name, offset + i * width, width⟩ := by
  induction names generalizing offset i with
  | nil => simp [fieldsFrom]
  | cons name names ih =>
      cases i with
      | zero => simp [fieldsFrom]
      | succ i =>
          rw [fieldsFrom, List.getElem?_cons_succ, ih, List.getElem?_cons_succ, Nat.succ_mul,
            Nat.add_right_comm, Nat.add_assoc]

end Irida.Backend
