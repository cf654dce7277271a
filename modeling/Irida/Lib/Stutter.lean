import Mathlib.Data.List.Basic
import Mathlib.Logic.Function.Iterate

/-!
# Following a deterministic system

A run that should go through the states of another system, one after the other,
may look at one of them twice before it goes on.  `Stutters l m` says that `l` is
`m` with some elements repeated on the spot, and `Follows` that a log and the
present state are those of the other system in this sense.
-/

namespace Stutter

variable {α : Type*}

/-- `l` is `m` with some of its elements repeated on the spot. -/
inductive Stutters : List α → List α → Prop
  | nil : Stutters [] []
  | snoc (a : α) {l m : List α} (h : Stutters l m) : Stutters (l ++ [a]) (m ++ [a])
  | again (a : α) {l m : List α} (h : Stutters (l ++ [a]) m) : Stutters (l ++ [a] ++ [a]) m

/-- The first `n` states from `start`. -/
def visited (next : α → α) (start : α) (n : ℕ) : List α :=
  (List.range n).map fun i => next^[i] start

theorem visited_succ (next : α → α) (start : α) (n : ℕ) :
    visited next start (n + 1) = visited next start n ++ [next^[n] start] := by
  simp [visited, List.range_succ]

/-- The log holds the states from `start` on, each maybe more than once, and `cur`
is the state that comes next. -/
def Follows (next : α → α) (start : α) (log : List α) (cur : α) : Prop :=
  ∃ n, cur = next^[n] start ∧ Stutters log (visited next start n)

theorem Follows.refl (next : α → α) (start : α) : Follows next start [] start :=
  ⟨0, rfl, .nil⟩

variable {next : α → α} {start cur : α} {log : List α}

theorem Follows.step (h : Follows next start log cur) :
    Follows next start (log ++ [cur]) (next cur) := by
  obtain ⟨n, rfl, hlog⟩ := h
  refine ⟨n + 1, (Function.iterate_succ_apply' next n start).symm, ?_⟩
  rw [visited_succ]
  exact hlog.snoc _

theorem Follows.step_again (h : Follows next start log cur) :
    Follows next start (log ++ [cur] ++ [cur]) (next cur) := by
  obtain ⟨n, hcur, hlog⟩ := h.step
  exact ⟨n, hcur, hlog.again cur⟩

theorem Follows.exists_iterate (h : Follows next start log cur) : ∃ n, cur = next^[n] start := by
  obtain ⟨n, hcur, -⟩ := h
  exact ⟨n, hcur⟩

end Stutter
