import Mathlib.Data.BitVec
import Mathlib.Data.FinEnum
import Std.Data.ExtTreeMap

/-!
# Machine words, buffers and results

The fixed-width integers and the two vocabulary types of `libs/base` that every
other module uses.
-/

namespace Irida

/-- `uint64_t`. -/
abbrev U64 := BitVec 64

/-- `uint32_t`. -/
abbrev U32 := BitVec 32

/-- `std::byte`, `uint8_t` and `char`. -/
abbrev Byte := BitVec 8

/-- `irida::base::Bytes`. -/
abbrev Bytes := List Byte

/-- `irida::base::Result<T>`: a value, or the text of an error. -/
abbrev Result (α : Type*) := Except String α

/-- A `char` literal. -/
def byte (c : Char) : Byte :=
  BitVec.ofNat 8 c.toNat

/-- A string literal, as the bytes of a `std::string`. -/
def ascii (s : String) : Bytes :=
  s.toList.map byte

/-- The bytes of a `std::string` as text for an error. -/
def textOf (bytes : Bytes) : String :=
  String.ofList (bytes.map fun b => Char.ofNat b.toNat)

/-- `static_cast<int>` of a `size_t`. -/
def asInt (n : ℕ) : ℤ :=
  (BitVec.ofNat 32 n).toInt

theorem asInt_of_lt {n : ℕ} (h : n < 2 ^ 31) : asInt n = n := by
  rw [asInt, BitVec.toInt_ofNat']
  exact Int.bmod_eq_of_le (by omega) (by omega)

theorem asInt_lt (n : ℕ) : asInt n < 2 ^ 31 := by
  have h := BitVec.toInt_lt (x := BitVec.ofNat 32 n)
  rw [asInt]
  omega

/-- The order of addresses that `std::map` and `std::set` go by. -/
instance transCmp_u64 : Std.TransCmp (compare : U64 → U64 → Ordering) :=
  inferInstance

theorem card_u64 : Fintype.card U64 = 2 ^ 64 := by
  rw [← FinEnum.card_eq_fintypeCard, FinEnum.card_bitVec]

end Irida
