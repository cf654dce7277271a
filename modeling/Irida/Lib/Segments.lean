import Mathlib.Data.List.SplitBy

/-!
# Maximal segments

An element of a list may have a class.  Neighbours of one class belong together, and an element
without a class stands for itself: `segments` are the blocks that this cuts a list into.  A maximal
stretch of one class is exactly one of them (`segments_of_maximal`).
-/

namespace Segments

variable {α κ : Type*}

/-- A stretch of a list at which a property holds, and it does not on either side. -/
structure Maximal (P : α → Prop) (before run after : List α) : Prop where
  ne_nil : run ≠ []
  holds : ∀ a ∈ run, P a
  starts : ∀ a ∈ before.getLast?, ¬ P a
  ends : ∀ a ∈ after.head?, ¬ P a

variable [DecidableEq κ] (classOf : α → Option κ)

/-- These neighbours are of one class. -/
def joins (a b : α) : Bool :=
  (classOf a).isSome && decide (classOf a = classOf b)

/-- The blocks of a list. -/
def segments (l : List α) : List (List α) :=
  l.splitBy (joins classOf)

variable {classOf} {k : κ} {a b : α} {before run after rest : List α}

theorem joins_iff : joins classOf a b = true ↔ ∃ k, classOf a = some k ∧ classOf b = some k := by
  unfold joins
  cases classOf a <;> simp [eq_comm]

theorem joins_eq_false (ha : classOf a = some k) (hb : classOf b ≠ some k) :
    joins classOf a b = false := by
  rw [Bool.eq_false_iff, ne_eq, joins_iff]
  rintro ⟨k', ha', hb'⟩
  obtain rfl : k = k' := Option.some.inj (ha.symm.trans ha')
  exact hb hb'

theorem joins_eq_false' (ha : classOf a ≠ some k) (hb : classOf b = some k) :
    joins classOf a b = false := by
  rw [Bool.eq_false_iff, ne_eq, joins_iff]
  rintro ⟨k', ha', hb'⟩
  obtain rfl : k = k' := Option.some.inj (hb.symm.trans hb')
  exact ha ha'

@[simp] theorem segments_nil : segments classOf [] = [] := rfl

theorem segments_of_class (hne : run ≠ []) (hrun : ∀ a ∈ run, classOf a = some k) :
    segments classOf run = [run] := by
  apply List.splitBy_of_isChain hne
  apply List.Pairwise.isChain
  apply List.pairwise_of_forall_mem_list
  intro a ha b hb
  exact joins_iff.mpr ⟨k, hrun a ha, hrun b hb⟩

/-- A stretch of one class that the list begins with. -/
theorem segments_append (hne : run ≠ []) (hrun : ∀ a ∈ run, classOf a = some k)
    (hrest : ∀ a ∈ rest.head?, classOf a ≠ some k) :
    segments classOf (run ++ rest) = run :: segments classOf rest := by
  have hsplit : segments classOf (run ++ rest) = segments classOf run ++ segments classOf rest := by
    apply List.splitBy_append
    intro a ha b hb
    exact joins_eq_false (hrun a (List.mem_of_getLast? ha)) (hrest b hb)
  rw [hsplit, segments_of_class hne hrun, List.singleton_append]

/-- An element without a class that the list begins with. -/
theorem segments_cons (ha : classOf a = none) :
    segments classOf (a :: rest) = [a] :: segments classOf rest := by
  refine List.splitBy_append (l := [a]) ?_
  intro x hx b hb
  obtain rfl : a = x := by simpa using hx
  simp [joins, ha]

/-- **A maximal stretch of one class is one block.** -/
theorem segments_of_maximal
    (h : Maximal (fun a => classOf a = some k) before run after) :
    segments classOf (before ++ run ++ after) =
      segments classOf before ++ run :: segments classOf after := by
  have hsplit : segments classOf (before ++ (run ++ after)) =
      segments classOf before ++ segments classOf (run ++ after) := by
    apply List.splitBy_append
    intro a ha b hb
    refine joins_eq_false' (h.starts a ha) (h.holds b ?_)
    rw [List.head?_append_of_ne_nil _ h.ne_nil] at hb
    exact List.mem_of_mem_head? hb
  rw [List.append_assoc, hsplit, segments_append h.ne_nil h.holds h.ends]

theorem flatten_segments (l : List α) : (segments classOf l).flatten = l :=
  List.flatten_splitBy _ l

end Segments
