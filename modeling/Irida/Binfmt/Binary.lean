import Irida.Base

/-!
# Parsed binaries

The part of `binary.hpp` that says where the bytes of a file lie in memory, the image base and the
section table, and the addresses that it names: the entry point, the symbols, the exports and the
slots of the import address table.  The parser makes every address absolute.
-/

namespace Irida.Binfmt

/-- `Section`. -/
structure Section where
  vaddr : U64
  vsize : U64
  offset : U64
  size : U64
  deriving DecidableEq, Repr

/-- `BinaryInfo`. -/
structure BinaryInfo where
  imageBase : U64
  sections : List Section
  deriving DecidableEq, Repr

/-- `Import`: a slot of the import address table, which the loader fills in. -/
structure Import where
  name : String
  iatAddr : U64
  deriving DecidableEq, Repr

/-- `Export`. -/
structure Export where
  name : String
  addr : U64
  deriving DecidableEq, Repr

/-- `Symbol`. -/
structure Symbol where
  name : String
  addr : U64
  deriving DecidableEq, Repr

/-- `BinaryInfo`, with the addresses that it names. -/
structure ProgramInfo extends BinaryInfo where
  entryPoint : U64
  imports : List Import
  exports : List Export
  symbols : List Symbol
  deriving DecidableEq, Repr

namespace Section

/-- The address lies in the virtual range of the section, whose end may wrap around. -/
def Covers (sec : Section) (vaddr : U64) : Prop :=
  sec.vaddr ≤ vaddr ∧ vaddr < sec.vaddr + sec.vsize

instance (sec : Section) (vaddr : U64) : Decidable (sec.Covers vaddr) :=
  inferInstanceAs (Decidable (_ ∧ _))

theorem not_covers_iff {sec : Section} {vaddr : U64} :
    ¬ sec.Covers vaddr ↔ vaddr < sec.vaddr ∨ sec.vaddr + sec.vsize ≤ vaddr := by
  rw [Covers, not_and_or, BitVec.not_le, BitVec.not_lt]

/-- The `len` bytes from a file offset on lie in the raw data of the section, and within its
virtual size. -/
def Holds (sec : Section) (start len : ℕ) : Prop :=
  sec.offset.toNat ≤ start ∧ start + len ≤ sec.offset.toNat + sec.size.toNat ∧
    start + len ≤ sec.offset.toNat + sec.vsize.toNat

instance (sec : Section) (start len : ℕ) : Decidable (sec.Holds start len) :=
  inferInstanceAs (Decidable (_ ∧ _))

/-- The section lies in memory where it lies in the file: as far from the image base as from the
start of the file. -/
def Flat (base : U64) (sec : Section) : Prop :=
  sec.vaddr = base + sec.offset

instance (base : U64) (sec : Section) : Decidable (sec.Flat base) :=
  inferInstanceAs (Decidable (_ = _))

/-- In a flat section an address is as far from the start of the section in memory as in the
file. -/
theorem Flat.within_eq {base : U64} {sec : Section} (h : sec.Flat base) (start : U64) :
    base + start - sec.vaddr = start - sec.offset := by
  rw [h, add_sub_add_left_eq_sub]

end Section

end Irida.Binfmt
