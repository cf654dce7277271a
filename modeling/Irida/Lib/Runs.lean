import Mathlib.Data.Nat.Basic

/-!
# Maximal runs

A run of stride `d` is a progression of positions, each `d` behind the one before, at which a
property holds.  `Maximal` are the runs that cannot be extended at either end.

A scan goes through the positions from left to right, measures the run at each position it comes
to, and goes on behind it.  It finds every maximal run if no two positions with the property are
less than `d` apart (`Sparse`): then no maximal run starts within another one, and where the scan
goes on no run has been cut (`Clean`).  `Lists.step` is the step of such a scan.
-/

namespace Runs

variable {P : ℕ → Prop} {d : ℕ}

/-- The property holds at `len` positions from `start` on, and neither before them nor behind. -/
structure Maximal (P : ℕ → Prop) (d start len : ℕ) : Prop where
  pos : 0 < len
  holds : ∀ j < len, P (start + d * j)
  stops : ¬ P (start + d * len)
  first : ∀ before, before + d = start → ¬ P before

/-- No two positions with the property are less than the stride apart. -/
def Sparse (P : ℕ → Prop) (d : ℕ) : Prop :=
  ∀ i t, P i → 0 < t → t < d → ¬ P (i + t)

/-- A position from which a scan can go on: a run there has not begun before. -/
structure Clean (P : ℕ → Prop) (d i : ℕ) : Prop where
  gap : ∀ before t, before + t = i → 0 < t → t < d → ¬ P before
  first : P i → ∀ before, before + d = i → ¬ P before

/-- The maximal runs that start at or behind a position, in order. -/
structure Lists (P : ℕ → Prop) (d lo : ℕ) (runs : List (ℕ × ℕ)) : Prop where
  sorted : runs.Pairwise fun r r' => r.1 < r'.1
  mem_iff : ∀ s k, (s, k) ∈ runs ↔ lo ≤ s ∧ Maximal P d s k

/-! ## Maximal runs do not overlap -/

theorem sparse_one (P : ℕ → Prop) : Sparse P 1 := by
  intro i t _ hpos hlt
  omega

/-- Two maximal runs from one position are the same. -/
theorem Maximal.unique {s k k' : ℕ} (h : Maximal P d s k) (h' : Maximal P d s k') : k = k' := by
  rcases Nat.lt_trichotomy k k' with hlt | heq | hgt
  · exact absurd (h'.holds k hlt) h.stops
  · exact heq
  · exact absurd (h.holds k' hgt) h'.stops

/-- No maximal run starts within another one, or where it stops. -/
theorem Maximal.not_within (hd : 0 < d) (hsparse : Sparse P d) {i k s k' : ℕ}
    (h : Maximal P d i k) (hlow : i < s) (hhigh : s ≤ i + d * k) : ¬ Maximal P d s k' := by
  intro h'
  have hs : P s := by simpa using h'.holds 0 h'.pos
  have hsplit := Nat.div_add_mod (s - i) d
  have hmod := Nat.mod_lt (s - i) hd
  rcases Nat.eq_zero_or_pos ((s - i) % d) with hzero | hpos
  · -- a whole number of strides behind the start: the position before has the property
    have hne : (s - i) / d ≠ 0 := by
      intro hnone
      rw [hnone, hzero] at hsplit
      omega
    obtain ⟨q, hq⟩ := Nat.exists_eq_succ_of_ne_zero hne
    rw [hq, Nat.mul_succ] at hsplit
    have hqk : q < k := by
      by_contra hle
      have := Nat.mul_le_mul_left d (Nat.le_of_not_lt hle)
      omega
    exact h'.first (i + d * q) (by omega) (h.holds q hqk)
  · have hqk : (s - i) / d < k := by
      by_contra hle
      have := Nat.mul_le_mul_left d (Nat.le_of_not_lt hle)
      omega
    have hnot := hsparse _ _ (h.holds _ hqk) hpos hmod
    rw [show i + d * ((s - i) / d) + (s - i) % d = s by omega] at hnot
    exact hnot hs

/-! ## Going on -/

theorem Clean.zero (hd : 0 < d) : Clean P d 0 where
  gap before t hsum hpos _ := by omega
  first _ before hsum := by omega

theorem Clean.succ (hd : 0 < d) {i : ℕ} (h : Clean P d i) (hnot : ¬ P i) : Clean P d (i + 1) := by
  have hgap : ∀ before t, before + t = i + 1 → 0 < t → t ≤ d → ¬ P before := by
    intro before t hsum hpos hle
    by_cases hone : t = 1
    · obtain rfl : before = i := by omega
      exact hnot
    · exact h.gap before (t - 1) (by omega) (by omega) (by omega)
  exact ⟨fun before t hsum hpos hlt => hgap before t hsum hpos (Nat.le_of_lt hlt),
    fun _ before hsum => hgap before d hsum hd (le_refl d)⟩

/-- Where a maximal run stops. -/
theorem Maximal.clean (hsparse : Sparse P d) {i k : ℕ} (h : Maximal P d i k) :
    Clean P d (i + d * k) := by
  refine ⟨fun before t hsum hpos hlt => ?_, fun hrun => absurd hrun h.stops⟩
  have hlast := h.holds (k - 1) (by have := h.pos; omega)
  have hmul : d * k = d * (k - 1) + d := by
    rw [← Nat.mul_succ, Nat.succ_eq_add_one, Nat.sub_add_cancel h.pos]
  have hnot := hsparse _ (d - t) hlast (by omega) (by omega)
  rwa [show i + d * (k - 1) + (d - t) = before by omega] at hnot

theorem Clean.maximal {i k : ℕ} (h : Clean P d i) (hpos : 0 < k)
    (hholds : ∀ j < k, P (i + d * j)) (hstops : ¬ P (i + d * k)) : Maximal P d i k where
  pos := hpos
  holds := hholds
  stops := hstops
  first := h.first (by simpa using hholds 0 hpos)

theorem Clean.behind (hsparse : Sparse P d) {i k : ℕ} (h : Clean P d i)
    (hholds : ∀ j < k, P (i + d * j)) (hstops : ¬ P (i + d * k)) : Clean P d (i + d * k) := by
  rcases Nat.eq_zero_or_pos k with rfl | hpos
  · exact h
  · exact (h.maximal hpos hholds hstops).clean hsparse

/-! ## Lists of runs -/

theorem Lists.nil {lo : ℕ} (hnone : ∀ s, lo ≤ s → ¬ P s) : Lists P d lo [] where
  sorted := List.Pairwise.nil
  mem_iff s k := by
    refine iff_of_false List.not_mem_nil fun h => hnone s h.1 ?_
    simpa using h.2.holds 0 h.2.pos

/-- **The step of a scan.**  The run at a clean position is measured, and the scan goes on where it
stops or one position behind. -/
theorem Lists.step (hd : 0 < d) (hsparse : Sparse P d) {i k lo : ℕ} {runs : List (ℕ × ℕ)}
    (hclean : Clean P d i) (hholds : ∀ j < k, P (i + d * j)) (hstops : ¬ P (i + d * k))
    (hlow : i < lo) (hhigh : lo ≤ i + d * k + 1) (h : Lists P d lo runs) :
    Lists P d i (if k = 0 then runs else (i, k) :: runs) := by
  split
  · next hzero =>
      subst hzero
      refine ⟨h.sorted, fun s k' => ?_⟩
      rw [h.mem_iff]
      refine ⟨fun hrun => ⟨by omega, hrun.2⟩, fun hrun => ⟨?_, hrun.2⟩⟩
      by_contra hlt
      obtain rfl : s = i := by omega
      exact hstops (by simpa using hrun.2.holds 0 hrun.2.pos)
  · next hne =>
      have hmax := hclean.maximal (Nat.pos_of_ne_zero hne) hholds hstops
      refine ⟨List.pairwise_cons.mpr ⟨fun r hr => ?_, h.sorted⟩, fun s k' => ?_⟩
      · exact Nat.lt_of_lt_of_le hlow ((h.mem_iff r.1 r.2).mp hr).1
      -- any other run from here on starts behind the one that was measured
      rw [List.mem_cons, h.mem_iff, Prod.mk.injEq]
      constructor
      · rintro (⟨rfl, rfl⟩ | ⟨hle, hrun⟩)
        · exact ⟨le_refl _, hmax⟩
        · exact ⟨by omega, hrun⟩
      · rintro ⟨hle, hrun⟩
        by_cases hsame : s = i
        · subst hsame
          exact Or.inl ⟨rfl, hrun.unique hmax⟩
        · refine Or.inr ⟨?_, hrun⟩
          by_contra hlt
          exact hmax.not_within hd hsparse (by omega) (by omega) hrun

end Runs
