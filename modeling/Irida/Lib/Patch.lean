import Mathlib.Logic.Function.Basic

/-!
# Patched memories

Some cells of a memory are overwritten by a mark, and a table holds what was
there before.  `original saved m` is the memory behind the marks: it is what a
program that was patched should be thought to have.

Saving and marking a cell, and restoring one, leave `original` as it is
(`original_save`, `original_restore`), as long as a cell is saved only while it
holds its original value.
-/

namespace Patch

variable {α β : Type*}

/-- The memory with the saved values back in place. -/
def original (saved : α → Option β) (m : α → β) : α → β :=
  fun a => (saved a).getD (m a)

/-- Every cell with a saved value holds the mark. -/
def Marked (mark : β) (saved : α → Option β) (m : α → β) : Prop :=
  ∀ a, saved a ≠ none → m a = mark

variable {saved : α → Option β} {m : α → β} {mark : β} {a : α} {b : β}

theorem original_of_none (h : saved a = none) : original saved m a = m a := by
  simp [original, h]

theorem original_of_some (h : saved a = some b) : original saved m a = b := by
  simp [original, h]

@[simp] theorem original_none (m : α → β) : original (fun _ => none) m = m :=
  rfl

theorem Marked.saved_eq_none (h : Marked mark saved m) (hne : m a ≠ mark) : saved a = none := by
  by_contra hsaved
  exact hne (h a hsaved)

theorem Marked.original_eq (h : Marked mark saved m)
    (hsaved : saved a = none ∨ saved a = some mark) :
    original saved m a = m a := by
  rcases hsaved with hsaved | hsaved
  · exact original_of_none hsaved
  · rw [original_of_some hsaved, h a (by simp [hsaved])]

/-- What is written to a saved cell cannot be seen. -/
theorem original_congr {m' : α → β} (h : ∀ x, saved x = none → m' x = m x) :
    original saved m' = original saved m := by
  funext x
  cases hx : saved x with
  | none => rw [original_of_none hx, original_of_none hx, h x hx]
  | some v => rw [original_of_some hx, original_of_some hx]

section Update

variable [DecidableEq α]

theorem original_update_of_some (h : saved a ≠ none) :
    original saved (Function.update m a b) = original saved m := by
  refine original_congr fun x hx => ?_
  have hne : x ≠ a := fun heq => h (heq ▸ hx)
  exact Function.update_of_ne hne b m

theorem original_save (h : original saved m a = m a) :
    original (Function.update saved a (some (m a))) (Function.update m a mark) =
      original saved m := by
  funext x
  by_cases hx : x = a
  · subst hx
    rw [original_of_some (Function.update_self ..), h]
  · simp [original, Function.update_of_ne hx]

theorem original_restore (h : saved a = some b) :
    original (Function.update saved a none) (Function.update m a b) = original saved m := by
  funext x
  by_cases hx : x = a
  · subst hx
    rw [original_of_none (Function.update_self ..), Function.update_self, original_of_some h]
  · simp [original, Function.update_of_ne hx]

theorem Marked.save (h : Marked mark saved m) (v : Option β) :
    Marked mark (Function.update saved a v) (Function.update m a mark) := by
  intro x hx
  by_cases hxa : x = a
  · subst hxa
    exact Function.update_self ..
  · rw [Function.update_of_ne hxa] at hx ⊢
    exact h x hx

theorem Marked.restore (h : Marked mark saved m) :
    Marked mark (Function.update saved a none) (Function.update m a b) := by
  intro x hx
  by_cases hxa : x = a
  · subst hxa
    exact absurd (Function.update_self ..) hx
  · rw [Function.update_of_ne hxa] at hx ⊢
    exact h x hx

end Update

end Patch
