import Irida.Target.RegisterLayout

/-!
# Register blocks that are cut short

`decode` takes what is left of a block for its last register, so that a block which ends inside a
register reports it with the bytes that are missing read as zero.  `sameValues_iff` says when that
is the value in the whole block, and `onlyWhole_iff` when no such register is reported.
-/

namespace Irida.Target

open Backend

/-- Every register that is reported has the same value in the other set. -/
def SameValues (r r' : RegisterSet) : Prop :=
  ∀ name v, r.get name = some v → r'.get name = some v

/-- Every register that is reported lies in the first `len` bytes with all of its bytes. -/
def OnlyWhole (r : RegisterSet) (len : ℕ) : Prop :=
  ∀ f ∈ makeX8664GdbProfile.fields, r.get f.name ≠ none → f.offset + f.size ≤ len

/-- A block of this length ends where a register ends. -/
def EndsWithRegister (len : ℕ) : Prop :=
  len % 8 = 0 ∧ len ≤ 136 ∨ 140 ≤ len

instance (len : ℕ) : Decidable (EndsWithRegister len) :=
  inferInstanceAs (Decidable (_ ∨ _))

/-- What the cut takes off a register that begins before it is zero. -/
def CutsZeros (block : Bytes) (n : ℕ) : Prop :=
  ∀ f ∈ makeX8664GdbProfile.fields, f.offset < n → ∀ b ∈ (f.bytes block).drop (n - f.offset), b = 0

instance (block : Bytes) (n : ℕ) : Decidable (CutsZeros block n) :=
  inferInstanceAs (Decidable (∀ f ∈ _, _ → _))

theorem size_le {f : RegisterField} (hf : f ∈ makeX8664GdbProfile.fields) : f.size ≤ 8 := by
  have hsize : ∀ f ∈ makeX8664GdbProfile.fields, f.size ≤ 8 := by decide
  exact hsize f hf

theorem bytes_take (f : RegisterField) (block : Bytes) (n : ℕ) :
    f.bytes (block.take n) = (f.bytes block).take (n - f.offset) := by
  unfold RegisterField.bytes
  rw [List.drop_take, List.take_take, List.take_take, Nat.min_comm]

/-- Fields of at most eight bytes hold the same word exactly if they hold the same number. -/
theorem value_eq_iff {f : RegisterField} (hf : f ∈ makeX8664GdbProfile.fields)
    (block block' : Bytes) :
    f.value block = f.value block' ↔
      LittleEndian.value (f.bytes block) = LittleEndian.value (f.bytes block') := by
  have hlt : ∀ block, LittleEndian.value (f.bytes block) < 2 ^ 64 := fun block => by
    calc LittleEndian.value (f.bytes block)
        < 256 ^ (f.bytes block).length := LittleEndian.value_lt _
      _ ≤ 256 ^ 8 := by
        apply Nat.pow_le_pow_right (by decide)
        rw [RegisterField.length_bytes]
        exact (Nat.min_le_left _ _).trans (size_le hf)
      _ = 2 ^ 64 := by decide
  unfold RegisterField.value
  constructor
  · intro h
    have hnat := congrArg BitVec.toNat h
    rwa [BitVec.toNat_ofNat, BitVec.toNat_ofNat, Nat.mod_eq_of_lt (hlt _),
      Nat.mod_eq_of_lt (hlt _)] at hnat
  · exact congrArg (BitVec.ofNat 64)

/-- A register of a cut block has the value that it has in the whole block exactly if the bytes
that were cut off it are zero. -/
theorem value_take_iff {f : RegisterField} (hf : f ∈ makeX8664GdbProfile.fields) (block : Bytes)
    (n : ℕ) :
    f.value (block.take n) = f.value block ↔ ∀ b ∈ (f.bytes block).drop (n - f.offset), b = 0 := by
  rw [value_eq_iff hf, bytes_take, LittleEndian.value_take_eq_iff]

theorem sameValues_iff (block : Bytes) (n : ℕ) :
    SameValues (decoded (block.take n)) (decoded block) ↔ CutsZeros block n := by
  constructor
  · intro h f hf hlt
    by_cases hblock : f.offset < block.length
    · have hcut : f.offset < (block.take n).length := by
        rw [List.length_take]
        omega
      have hsame := h f.name (f.value (block.take n)) (by rw [get_decoded _ hf, if_pos hcut])
      rw [get_decoded _ hf, if_pos hblock, Option.some_inj] at hsame
      exact (value_take_iff hf block n).mp hsame.symm
    · -- the block has nothing of the field
      rw [RegisterField.bytes, List.drop_eq_nil_of_le (Nat.le_of_not_lt hblock)]
      simp
  · intro h name v hget
    obtain ⟨f, hf, rfl, hlt, rfl⟩ := exists_field_of_get hget
    rw [List.length_take] at hlt
    rw [get_decoded _ hf, if_pos (by omega), Option.some_inj]
    exact ((value_take_iff hf block n).mpr (h f hf (by omega))).symm

theorem gdbProfile_cases {f : RegisterField} (hf : f ∈ makeX8664GdbProfile.fields) :
    (f.offset % 8 = 0 ∧ f.offset < 136 ∧ f.size = 8) ∨ (f.offset = 136 ∧ f.size = 4) := by
  have hall : ∀ f ∈ makeX8664GdbProfile.fields,
      (f.offset % 8 = 0 ∧ f.offset < 136 ∧ f.size = 8) ∨ (f.offset = 136 ∧ f.size = 4) := by decide
  exact hall f hf

theorem exists_qword {i : ℕ} (h : i < 17) :
    ∃ f ∈ makeX8664GdbProfile.fields, f.offset = 8 * i ∧ f.size = 8 := by
  have hall : ∀ i < 17, ∃ f ∈ makeX8664GdbProfile.fields, f.offset = 8 * i ∧ f.size = 8 := by decide
  exact hall i h

theorem onlyWhole_iff (block : Bytes) :
    OnlyWhole (decoded block) block.length ↔ EndsWithRegister block.length := by
  have hreported : ∀ f ∈ makeX8664GdbProfile.fields,
      (decoded block).get f.name ≠ none ↔ f.offset < block.length := fun f hf => by
    rw [get_decoded block hf]
    split <;> simp_all
  unfold OnlyWhole EndsWithRegister
  constructor
  · intro h
    have hfits : ∀ f ∈ makeX8664GdbProfile.fields, f.offset < block.length →
        f.offset + f.size ≤ block.length := fun f hf hlt => h f hf ((hreported f hf).mpr hlt)
    rcases Nat.lt_or_ge 136 block.length with hlong | hshort
    · have hflags := hfits ⟨RegisterSet.kEflagsName, 136, 4⟩ (by decide) hlong
      exact Or.inr hflags
    · -- the register that the block ends in
      refine Or.inl ⟨?_, hshort⟩
      by_contra hodd
      obtain ⟨f, hf, hoffset, hsize⟩ := exists_qword (i := block.length / 8) (by omega)
      have := hfits f hf (by omega)
      omega
  · intro h f hf hget
    have hlt := (hreported f hf).mp hget
    rcases gdbProfile_cases hf with ⟨hoffset, hlast, hsize⟩ | ⟨hoffset, hsize⟩
    · omega
    · omega

/-- A block that is cut where a register ends loses whole registers only. -/
theorem cutsZeros_of_endsWithRegister {block : Bytes} {n : ℕ}
    (h : EndsWithRegister (block.take n).length) : CutsZeros block n := by
  rw [← sameValues_iff]
  intro name v hget
  obtain ⟨f, hf, rfl, hlt, rfl⟩ := exists_field_of_get hget
  have hwhole := (onlyWhole_iff _).mpr h f hf (by rw [hget]; exact Option.some_ne_none _)
  rw [List.length_take] at hlt hwhole
  have hnone : (f.bytes block).drop (n - f.offset) = [] := by
    apply List.drop_eq_nil_of_le
    rw [RegisterField.length_bytes]
    omega
  rw [get_decoded _ hf, if_pos (by omega), Option.some_inj]
  exact ((value_take_iff hf block n).mpr (by simp [hnone])).symm

/-- **When a cut block is read right.**  The registers that are reported have their values in the
whole block exactly if the cut takes only zeros off the last of them; and only registers that are
there with all their bytes are reported exactly if the cut lies where a register ends. -/
theorem cutBlock_iff (block : Bytes) (n : ℕ) :
    ∃ r r', RegisterSet.decode (block.take n) = .ok r ∧ RegisterSet.decode block = .ok r' ∧
      (SameValues r r' ↔ CutsZeros block n) ∧
      (SameValues r r' ∧ OnlyWhole r (block.take n).length ↔
        EndsWithRegister (block.take n).length) := by
  refine ⟨_, _, decode_eq _, decode_eq _, sameValues_iff block n, ?_⟩
  rw [sameValues_iff, onlyWhole_iff]
  exact ⟨And.right, fun h => ⟨cutsZeros_of_endsWithRegister h, h⟩⟩

/-- A whole block in which `rax` is `0x100` and every other register is zero. -/
def twoByteRax : Bytes := 0 :: 1 :: List.replicate 138 0

/-- Cut after its first byte, it reports `rax` as zero. -/
theorem not_sameValues_twoByteRax :
    ¬ ∀ (block : Bytes) (n : ℕ) (r r' : RegisterSet),
      RegisterSet.decode (block.take n) = .ok r → RegisterSet.decode block = .ok r' →
        SameValues r r' ∧ OnlyWhole r (block.take n).length := by
  intro h
  have hsame := (h twoByteRax 1 _ _ (decode_eq _) (decode_eq _)).1
  have hcut := (sameValues_iff twoByteRax 1).mp hsame ⟨"rax", 0, 8⟩ (by decide) (by decide)
  exact absurd (hcut 1 (by decide)) (by decide)

end Irida.Target
