import Mathlib.Data.List.Basic
import Std.Data.ExtTreeMap

/-!
# Maps built by overwriting

A loop enters the rows of a table into a map, and a later row overwrites an earlier one under the
same key.  `getElem?_enter` says what the map answers: the last row under the key, else what it
answered before.  `lastUnder_rekey` is what makes such maps agree under a renaming of the keys,
which may neither join two keys nor part them.
-/

namespace Overwrite

variable {α κ ν : Type*} {cmp : κ → κ → Ordering}

/-- The rows are entered into the map, one after the other. -/
def enter (key : α → κ) (val : α → ν) (map : Std.ExtTreeMap κ ν cmp) [Std.TransCmp cmp]
    (rows : List α) : Std.ExtTreeMap κ ν cmp :=
  rows.foldl (fun map row => map.insert (key row) (val row)) map

/-- The last row with this key. -/
def lastUnder [DecidableEq κ] (key : α → κ) (k : κ) (rows : List α) : Option α :=
  rows.reverse.find? fun row => decide (key row = k)

section Last

variable [DecidableEq κ] (key : α → κ) (k : κ)

@[simp] theorem lastUnder_nil : lastUnder key k [] = none :=
  rfl

theorem lastUnder_cons (row : α) (rows : List α) :
    lastUnder key k (row :: rows) =
      (lastUnder key k rows).or (if key row = k then some row else none) := by
  unfold lastUnder
  rw [List.reverse_cons, List.find?_append]
  by_cases h : key row = k <;> simp [h]

theorem lastUnder_concat (rows : List α) (row : α) :
    lastUnder key k (rows ++ [row]) = if key row = k then some row else lastUnder key k rows := by
  unfold lastUnder
  rw [List.reverse_append, List.reverse_singleton, List.singleton_append, List.find?_cons]
  by_cases h : key row = k <;> simp [h]

/-- Where no two rows have one key, the last row under a key is the row with that key. -/
theorem lastUnder_eq_some_iff {rows : List α} (h : rows.Pairwise fun a b => key a ≠ key b)
    {row : α} : lastUnder key k rows = some row ↔ row ∈ rows ∧ key row = k := by
  induction rows generalizing row with
  | nil => simp
  | cons first rows ih =>
      obtain ⟨hfirst, hrows⟩ := List.pairwise_cons.mp h
      rw [lastUnder_cons, Option.or_eq_some_iff, ih hrows, List.mem_cons]
      constructor
      · rintro (⟨hmem, hkey⟩ | ⟨-, hlast⟩)
        · exact ⟨Or.inr hmem, hkey⟩
        · obtain ⟨hkey, hrow⟩ := Option.ite_none_right_eq_some.mp hlast
          obtain rfl := Option.some.inj hrow
          exact ⟨Or.inl rfl, hkey⟩
      · rintro ⟨rfl | hmem, hkey⟩
        · refine Or.inr ⟨?_, if_pos hkey⟩
          -- no later row has the key
          rw [Option.eq_none_iff_forall_ne_some]
          intro other hother
          obtain ⟨hmem, hkey'⟩ := (ih hrows).mp hother
          exact hfirst other hmem (hkey.trans hkey'.symm)
        · exact Or.inl ⟨hmem, hkey⟩

theorem lastUnder_rekey {κ' : Type*} [DecidableEq κ'] {f : κ → κ'} (hf : Function.Injective f)
    (rows : List α) : lastUnder (fun row => f (key row)) (f k) rows = lastUnder key k rows := by
  unfold lastUnder
  simp only [hf.eq_iff]

end Last

variable [Std.TransCmp cmp] [Std.LawfulEqCmp cmp] [DecidableEq κ]

/-- A map answers with the last row that was entered under a key. -/
theorem getElem?_enter (key : α → κ) (val : α → ν) (rows : List α) (map : Std.ExtTreeMap κ ν cmp)
    (k : κ) : (enter key val map rows)[k]? = ((lastUnder key k rows).map val).or map[k]? := by
  induction rows generalizing map with
  | nil => simp [enter]
  | cons row rows ih =>
      have hstep : enter key val map (row :: rows) =
          enter key val (map.insert (key row) (val row)) rows := rfl
      rw [hstep, ih, lastUnder_cons, Std.ExtTreeMap.getElem?_insert]
      by_cases h : key row = k
      · cases lastUnder key k rows <;> simp [h]
      · cases lastUnder key k rows <;> simp [h]

end Overwrite
