import Mathlib.Data.Nat.Basic

/-!
# Numerals

A numeral that is written in one radix, with symbols that stand for the digits, and read in another
one.  In its own radix the number is read back (`read_self`).  In a larger radix it is read back
exactly if it has one digit (`reread_eq_iff`): a further digit weighs more there.
-/

namespace Numeral

variable {α : Type*} (digit : α → Option ℕ)

/-- One more digit at the end. -/
def push (radix value : ℕ) (c : α) : Option ℕ :=
  (digit c).bind fun d => if d < radix then some (radix * value + d) else none

/-- The number that a numeral stands for, unless it is empty or holds another symbol. -/
def read (radix : ℕ) (s : List α) : Option ℕ :=
  if s.isEmpty then none else s.foldlM (push digit radix) 0

/-- What the numeral of `n` in radix `b` stands for in radix `r`. -/
def reread (b r n : ℕ) : ℕ :=
  if n < b ∨ b ≤ 1 then n else r * reread b r (n / b) + n % b
termination_by n
decreasing_by exact Nat.div_lt_self (by omega) (by omega)

theorem reread_of_lt {b r n : ℕ} (h : n < b) : reread b r n = n := by
  rw [reread, if_pos (Or.inl h)]

theorem reread_of_le {b r n : ℕ} (hb : 1 < b) (h : b ≤ n) :
    reread b r n = r * reread b r (n / b) + n % b := by
  rw [reread, if_neg (by omega)]

theorem reread_self (b n : ℕ) : reread b b n = n := by
  induction n using Nat.strong_induction_on with
  | _ n ih =>
      rw [reread]
      split
      · rfl
      · rw [ih (n / b) (Nat.div_lt_self (by omega) (by omega)), Nat.div_add_mod]

/-- The same digits weigh at least as much in a larger radix. -/
theorem le_reread {b r : ℕ} (hr : b ≤ r) (n : ℕ) : n ≤ reread b r n := by
  induction n using Nat.strong_induction_on with
  | _ n ih =>
      rw [reread]
      split
      · exact le_rfl
      · have hrest := ih (n / b) (Nat.div_lt_self (by omega) (by omega))
        calc n = b * (n / b) + n % b := (Nat.div_add_mod n b).symm
          _ ≤ r * reread b r (n / b) + n % b := Nat.add_le_add_right (Nat.mul_le_mul hr hrest) _

/-- A number is read back in a larger radix exactly if it has one digit. -/
theorem reread_eq_iff {b r n : ℕ} (hb : 1 < b) (hr : b < r) : reread b r n = n ↔ n < b := by
  refine ⟨fun h => ?_, reread_of_lt⟩
  by_contra hle
  have hle : b ≤ n := Nat.le_of_not_lt hle
  have hpos : 0 < n / b := Nat.div_pos hle (by omega)
  have hmore : n < reread b r n := by
    rw [reread_of_le hb hle]
    calc n = b * (n / b) + n % b := (Nat.div_add_mod n b).symm
      _ < r * (n / b) + n % b := Nat.add_lt_add_right (Nat.mul_lt_mul_of_pos_right hr hpos) _
      _ ≤ r * reread b r (n / b) + n % b :=
        Nat.add_le_add_right (Nat.mul_le_mul_left r (le_reread (Nat.le_of_lt hr) _)) _
  omega

/-! ## Written numerals -/

section Written

variable {digit} {symbol : Char → α} {b : ℕ}

theorem foldlM_toDigits (hb : 1 < b) (hsymbol : ∀ d < b, digit (symbol d.digitChar) = some d)
    {r : ℕ} (hr : b ≤ r) (n : ℕ) :
    ((Nat.toDigits b n).map symbol).foldlM (push digit r) 0 = some (reread b r n) := by
  induction n using Nat.strong_induction_on with
  | _ n ih =>
      rw [Nat.toDigits_eq_if hb]
      by_cases hn : n < b
      · rw [if_pos hn, reread_of_lt hn]
        simp [push, hsymbol n hn, show n < r by omega]
      · have hmod : n % b < b := Nat.mod_lt n (by omega)
        rw [if_neg hn, List.map_append, List.foldlM_append,
          ih (n / b) (Nat.div_lt_self (by omega) hb), reread_of_le hb (Nat.le_of_not_lt hn)]
        simp [push, hsymbol _ hmod, show n % b < r by omega]

/-- What is written in one radix and read in another one. -/
theorem read_toDigits (hb : 1 < b) (hsymbol : ∀ d < b, digit (symbol d.digitChar) = some d) {r : ℕ}
    (hr : b ≤ r) (n : ℕ) :
    read digit r ((Nat.toDigits b n).map symbol) = some (reread b r n) := by
  have hne : ((Nat.toDigits b n).map symbol).isEmpty = false := by simp
  rw [read, hne]
  exact foldlM_toDigits hb hsymbol hr n

theorem read_self (hb : 1 < b) (hsymbol : ∀ d < b, digit (symbol d.digitChar) = some d) (n : ℕ) :
    read digit b ((Nat.toDigits b n).map symbol) = some n := by
  rw [read_toDigits hb hsymbol le_rfl, reread_self]

theorem isSome_of_foldlM {r : ℕ} {s : List α} {value n : ℕ}
    (h : s.foldlM (push digit r) value = some n) : ∀ c ∈ s, (digit c).isSome := by
  induction s generalizing value with
  | nil => exact fun c hc => absurd hc List.not_mem_nil
  | cons c s ih =>
      rw [List.foldlM_cons] at h
      obtain ⟨next, hpush, hrest⟩ := Option.bind_eq_some_iff.mp h
      obtain ⟨d, hd, -⟩ := Option.bind_eq_some_iff.mp hpush
      exact List.forall_mem_cons.mpr ⟨by simp [hd], ih hrest⟩

theorem notMem_toDigits (hb : 1 < b) (hsymbol : ∀ d < b, digit (symbol d.digitChar) = some d)
    {c : α} (hc : digit c = none) (n : ℕ) : c ∉ (Nat.toDigits b n).map symbol := by
  intro hmem
  have hdigit := isSome_of_foldlM (foldlM_toDigits hb hsymbol le_rfl n) c hmem
  simp [hc] at hdigit

end Written

end Numeral
