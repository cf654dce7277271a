import Mathlib.Data.BitVec

/-!
# Little-endian numbers

A number as bytes, lowest first, and blocks of such numbers in slots of one width.
`value_bytes` and `bytes_value` are the round trips of one number, `slot_block` and
`lowBytes_eq_block` those of a block.
-/

namespace LittleEndian

/-- The `n` lowest bytes of a number, lowest first. -/
def bytes : ℕ → ℕ → List (BitVec 8)
  | 0, _ => []
  | n + 1, v => BitVec.ofNat 8 v :: bytes n (v / 256)

/-- The number that these bytes stand for. -/
def value : List (BitVec 8) → ℕ
  | [] => 0
  | b :: bs => b.toNat + 256 * value bs

@[simp] theorem length_bytes (n v : ℕ) : (bytes n v).length = n := by
  induction n generalizing v with
  | zero => rfl
  | succ n ih => simp [bytes, ih]

theorem take_bytes {k n : ℕ} (h : k ≤ n) (v : ℕ) : (bytes n v).take k = bytes k v := by
  induction k generalizing n v with
  | zero => rfl
  | succ k ih =>
      obtain ⟨n, rfl⟩ : ∃ m, n = m + 1 := ⟨n - 1, by omega⟩
      rw [bytes, List.take_succ_cons, ih (Nat.le_of_succ_le_succ h), bytes]

theorem value_bytes (n v : ℕ) : value (bytes n v) = v % 256 ^ n := by
  induction n generalizing v with
  | zero => simp [bytes, value, Nat.mod_one]
  | succ n ih =>
      calc value (bytes (n + 1) v)
          = v % 256 + 256 * (v / 256 % 256 ^ n) := by
            rw [bytes, value, ih, BitVec.toNat_ofNat]
        _ = v % 256 ^ (n + 1) := by rw [pow_succ' 256 n, Nat.mod_mul]

@[simp] theorem value_nil : value [] = 0 :=
  rfl

theorem value_append (bs bs' : List (BitVec 8)) :
    value (bs ++ bs') = value bs + 256 ^ bs.length * value bs' := by
  induction bs with
  | nil => simp
  | cons b bs ih =>
      rw [List.cons_append, value, ih, value, List.length_cons, pow_succ', Nat.mul_add,
        Nat.mul_assoc, Nat.add_assoc]

theorem value_lt (bs : List (BitVec 8)) : value bs < 256 ^ bs.length := by
  induction bs with
  | nil => simp
  | cons b bs ih =>
      have hb : b.toNat < 256 := b.isLt
      rw [value, List.length_cons, pow_succ']
      omega

/-- The lowest bytes stand for the number modulo their range. -/
theorem value_take (k : ℕ) (bs : List (BitVec 8)) : value (bs.take k) = value bs % 256 ^ k := by
  induction k generalizing bs with
  | zero => simp [Nat.mod_one]
  | succ k ih =>
      cases bs with
      | nil => simp
      | cons b bs =>
          have hb : b.toNat < 256 := b.isLt
          have hlow : (b.toNat + 256 * value bs) % 256 = b.toNat := by omega
          have hhigh : (b.toNat + 256 * value bs) / 256 = value bs := by omega
          rw [List.take_succ_cons, value, ih, value, pow_succ', Nat.mod_mul, hlow, hhigh]

theorem bytes_zero (n : ℕ) : bytes n 0 = List.replicate n 0 := by
  induction n with
  | zero => rfl
  | succ n ih =>
      rw [bytes, Nat.zero_div, ih, List.replicate_succ]
      rfl

/-- The bytes of the number that some bytes stand for are these bytes, with zeros above. -/
theorem bytes_value {n : ℕ} {bs : List (BitVec 8)} (h : bs.length ≤ n) :
    bytes n (value bs) = bs ++ List.replicate (n - bs.length) 0 := by
  induction bs generalizing n with
  | nil => simpa using bytes_zero n
  | cons b bs ih =>
      obtain ⟨n, rfl⟩ : ∃ m, n = m + 1 := ⟨n - 1, by rw [List.length_cons] at h; omega⟩
      have hb : b.toNat < 256 := b.isLt
      have hhigh : (b.toNat + 256 * value bs) / 256 = value bs := by omega
      have hlow : BitVec.ofNat 8 (b.toNat + 256 * value bs) = b := by
        apply BitVec.eq_of_toNat_eq
        rw [BitVec.toNat_ofNat]
        omega
      rw [value, bytes, hhigh, hlow, ih (Nat.le_of_succ_le_succ h), List.length_cons,
        Nat.add_sub_add_right, List.cons_append]

theorem value_eq_zero_iff {bs : List (BitVec 8)} : value bs = 0 ↔ ∀ b ∈ bs, b = 0 := by
  induction bs with
  | nil => simp
  | cons b bs ih =>
      have hb : b.toNat = 0 ↔ b = 0 := BitVec.toNat_eq (y := 0#8).symm
      rw [value, Nat.add_eq_zero_iff, Nat.mul_eq_zero, ih, hb, List.forall_mem_cons]
      simp

/-- The lowest bytes stand for the whole number exactly if the others are zero. -/
theorem value_take_eq_iff (k : ℕ) (bs : List (BitVec 8)) :
    value (bs.take k) = value bs ↔ ∀ b ∈ bs.drop k, b = 0 := by
  have hsplit : value bs = value (bs.take k) + 256 ^ (bs.take k).length * value (bs.drop k) := by
    rw [← value_append, List.take_append_drop]
  rw [← value_eq_zero_iff, hsplit]
  have hpow : 0 < 256 ^ (bs.take k).length := Nat.pow_pos (by decide)
  constructor
  · intro h
    have hmul : 256 ^ (bs.take k).length * value (bs.drop k) = 0 := by omega
    exact (Nat.mul_eq_zero.mp hmul).resolve_left hpow.ne'
  · intro h
    rw [h, Nat.mul_zero, Nat.add_zero]

/-- Numbers in slots of `n` bytes. -/
def block (n : ℕ) (vs : List ℕ) : List (BitVec 8) :=
  vs.flatMap (bytes n)

/-- The bytes of slot `i`. -/
def slot (n : ℕ) (bs : List (BitVec 8)) (i : ℕ) : List (BitVec 8) :=
  (bs.drop (i * n)).take n

@[simp] theorem length_block (n : ℕ) (vs : List ℕ) : (block n vs).length = vs.length * n := by
  induction vs with
  | nil => simp [block]
  | cons v vs ih =>
      rw [block, List.flatMap_cons, List.length_append, length_bytes, List.length_cons,
        Nat.succ_mul, Nat.add_comm]
      exact congrArg (· + n) ih

theorem block_cons (n v : ℕ) (vs : List ℕ) : block n (v :: vs) = bytes n v ++ block n vs :=
  rfl

theorem slot_block (n : ℕ) (vs : List ℕ) {i v : ℕ} (h : vs[i]? = some v) :
    slot n (block n vs) i = bytes n v := by
  induction vs generalizing i with
  | nil => simp at h
  | cons w vs ih =>
      cases i with
      | zero =>
          obtain rfl : w = v := by simpa using h
          rw [slot, block_cons, Nat.zero_mul, List.drop_zero, List.take_left' (length_bytes n w)]
      | succ i =>
          have hdrop : (block n (w :: vs)).drop ((i + 1) * n) = (block n vs).drop (i * n) := by
            rw [block_cons, Nat.succ_mul, Nat.add_comm, ← List.drop_drop,
              List.drop_left' (length_bytes n w)]
          calc slot n (block n (w :: vs)) (i + 1)
              = slot n (block n vs) i := by rw [slot, hdrop, slot]
            _ = bytes n v := ih (by simpa using h)

/-- Bytes are a block if all their slots are those of the block. -/
theorem eq_block {n : ℕ} {vs : List ℕ} {bs : List (BitVec 8)} (hlen : bs.length = vs.length * n)
    (h : ∀ i v, vs[i]? = some v → slot n bs i = bytes n v) : bs = block n vs := by
  induction vs generalizing bs with
  | nil =>
      rw [List.length_nil, Nat.zero_mul] at hlen
      exact List.eq_nil_of_length_eq_zero hlen
  | cons v vs ih =>
      have hhead : bs.take n = bytes n v := by
        have hslot := h 0 v rfl
        rwa [slot, Nat.zero_mul, List.drop_zero] at hslot
      have htail : bs.drop n = block n vs := by
        apply ih
        · rw [List.length_drop, hlen, List.length_cons, Nat.succ_mul, Nat.add_sub_cancel]
        · intro i w hw
          rw [← h (i + 1) w hw, slot, slot, List.drop_drop, Nat.succ_mul, Nat.add_comm n]
      calc bs = bs.take n ++ bs.drop n := (List.take_append_drop n bs).symm
        _ = block n (v :: vs) := by rw [hhead, htail, block_cons]

/-- The bytes with only the lowest `w i` of every slot `i` kept, and zeros above. -/
def lowBytes (n : ℕ) (w : ℕ → ℕ) (bs : List (BitVec 8)) : List (BitVec 8) :=
  bs.mapIdx fun j b => if j % n < w (j / n) then b else 0

theorem slot_lowBytes {n i : ℕ} {w : ℕ → ℕ} {bs : List (BitVec 8)} (hw : w i ≤ n)
    (hlen : i * n + n ≤ bs.length) :
    slot n (lowBytes n w bs) i =
      (slot n bs i).take (w i) ++ List.replicate (n - w i) 0 := by
  have hslot : ((slot n bs i).take (w i)).length = w i := by
    rw [slot, List.length_take, List.length_take, List.length_drop]
    omega
  apply List.ext_getElem
  · rw [List.length_append, hslot, List.length_replicate, slot, lowBytes, List.length_take,
      List.length_drop, List.length_mapIdx]
    omega
  · intro k hk _
    have hkn : k < n := by
      rw [slot, List.length_take] at hk
      omega
    have hmod : (i * n + k) % n = k := by
      rw [Nat.add_comm, Nat.add_mul_mod_self_right, Nat.mod_eq_of_lt hkn]
    have hdiv : (i * n + k) / n = i := by
      rw [Nat.add_comm, Nat.add_mul_div_right _ _ (by omega), Nat.div_eq_of_lt hkn, Nat.zero_add]
    simp only [slot, lowBytes, List.getElem_take, List.getElem_drop, List.getElem_mapIdx, hmod,
      hdiv, List.getElem_append, List.getElem_replicate]
    have hiff : k < (((bs.drop (i * n)).take n).take (w i)).length ↔ k < w i := by
      rw [← slot, hslot]
    simp only [hiff]
    split <;> rfl

/-- Clearing the high bytes of the slots is taking their numbers modulo what is kept. -/
theorem lowBytes_eq_block {n m : ℕ} {w : ℕ → ℕ} {bs : List (BitVec 8)} (hw : ∀ i < m, w i ≤ n)
    (hlen : bs.length = m * n) :
    lowBytes n w bs =
      block n ((List.range m).map fun i => value (slot n bs i) % 256 ^ w i) := by
  apply eq_block
  · rw [lowBytes, List.length_mapIdx, hlen, List.length_map, List.length_range]
  · intro i v hv
    obtain ⟨hi, rfl⟩ : i < m ∧ value (slot n bs i) % 256 ^ w i = v := by
      simpa [List.getElem?_eq_some_iff] using hv
    have hfit : i * n + n ≤ bs.length := by
      rw [hlen, ← Nat.succ_mul]
      exact Nat.mul_le_mul_right n hi
    have hkept : ((slot n bs i).take (w i)).length = w i := by
      have := hw i hi
      rw [slot, List.length_take, List.length_take, List.length_drop]
      omega
    rw [slot_lowBytes (hw i hi) hfit, ← value_take, bytes_value (by rw [hkept]; exact hw i hi),
      hkept]

/-- The bytes with slot `i` overwritten. -/
def setSlot (n : ℕ) (bs : List (BitVec 8)) (i v : ℕ) : List (BitVec 8) :=
  bs.take (i * n) ++ bytes n v ++ bs.drop (i * n + n)

section SetSlot

variable {n i : ℕ} {bs : List (BitVec 8)} (v : ℕ) (h : i * n + n ≤ bs.length)

include h

@[simp] theorem length_setSlot : (setSlot n bs i v).length = bs.length := by
  rw [setSlot, List.length_append, List.length_append, length_bytes, List.length_take,
    List.length_drop]
  omega

theorem slot_setSlot : slot n (setSlot n bs i v) i = bytes n v := by
  rw [slot, setSlot, List.append_assoc, List.drop_left' (by rw [List.length_take]; omega),
    List.take_left' (length_bytes n v)]

theorem take_drop_setSlot_of_le {o s : ℕ} (hle : o + s ≤ i * n) :
    ((setSlot n bs i v).drop o).take s = (bs.drop o).take s := by
  rw [List.take_drop, List.take_drop, setSlot, List.append_assoc,
    List.take_append_of_le_length (by rw [List.length_take]; omega), List.take_take,
    min_eq_left hle]

theorem drop_setSlot_of_le {o : ℕ} (hle : i * n + n ≤ o) :
    (setSlot n bs i v).drop o = bs.drop o := by
  have hhead : (bs.take (i * n) ++ bytes n v).length = i * n + n := by
    rw [List.length_append, List.length_take, length_bytes]
    omega
  rw [setSlot, List.drop_append, List.drop_eq_nil_of_le (hhead.trans_le hle), hhead,
    List.nil_append, List.drop_drop, Nat.add_sub_cancel' hle]

end SetSlot

theorem setSlot_block (n : ℕ) (vs : List ℕ) {i : ℕ} (v : ℕ) (h : i < vs.length) :
    setSlot n (block n vs) i v = block n (vs.set i v) := by
  induction vs generalizing i with
  | nil => simp at h
  | cons w vs ih =>
      cases i with
      | zero =>
          rw [setSlot, block_cons, Nat.zero_mul, Nat.zero_add,
            List.drop_left' (length_bytes n w)]
          simp [block]
      | succ i =>
          have ih := ih (i := i) (by simpa using h)
          have hoff : (i + 1) * n = n + i * n := by rw [Nat.succ_mul, Nat.add_comm]
          rw [setSlot, block_cons, List.set_cons_succ, block_cons, ← ih, setSlot, hoff,
            Nat.add_assoc, ← List.drop_drop, List.drop_left' (length_bytes n w),
            List.take_append, length_bytes, List.take_of_length_le (by simp)]
          simp

end LittleEndian
