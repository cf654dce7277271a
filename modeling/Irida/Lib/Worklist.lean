import Mathlib.Data.Finset.Card
import Mathlib.Data.Fintype.Card

/-!
# Worklist loops

A worklist loop pops the front of a queue, visits it, and pushes those of the
elements the visit reports that were never queued before.  The loop is written
with fuel, and a visit may itself run out of fuel (`none`).

Over a finite type every such loop ends: `State.potential`, the length of the
queue plus the number of elements never queued, is left unchanged by a push and
lowered by a pop.  `run_spec` packages this with an invariant: if each visit
succeeds and keeps the invariant, then the loop ends with the invariant and an
empty queue.
-/

namespace Worklist

variable {α σ : Type*} [DecidableEq α]

/-- The queue, the set of all elements ever pushed onto it, and the data the
visits work on. -/
structure State (α σ : Type*) where
  work : List α
  queued : Finset α
  data : σ

namespace State

/-- Push an element unless it was queued before. -/
def enqueue (s : State α σ) (x : α) : State α σ :=
  if x ∈ s.queued then s
  else { s with work := s.work ++ [x], queued := insert x s.queued }

/-- Push the elements of a list in order. -/
def enqueueAll (s : State α σ) (found : List α) : State α σ :=
  found.foldl enqueue s

@[simp] theorem enqueueAll_nil (s : State α σ) : s.enqueueAll [] = s := rfl

@[simp] theorem enqueueAll_cons (s : State α σ) (x : α) (found : List α) :
    s.enqueueAll (x :: found) = (s.enqueue x).enqueueAll found := rfl

theorem mem_queued_enqueue {s : State α σ} {x y : α} :
    y ∈ (s.enqueue x).queued ↔ y ∈ s.queued ∨ y = x := by
  unfold enqueue
  split
  · constructor
    · exact Or.inl
    · rintro (h | rfl) <;> assumption
  · simp [or_comm]

theorem mem_work_enqueue {s : State α σ} {x y : α} :
    y ∈ (s.enqueue x).work ↔ y ∈ s.work ∨ (y = x ∧ x ∉ s.queued) := by
  unfold enqueue
  split
  · simp_all
  · simp_all

@[simp] theorem data_enqueue (s : State α σ) (x : α) : (s.enqueue x).data = s.data := by
  unfold enqueue
  split <;> rfl

@[simp] theorem data_enqueueAll (s : State α σ) (found : List α) :
    (s.enqueueAll found).data = s.data := by
  induction found generalizing s with
  | nil => rfl
  | cons x found ih => rw [enqueueAll_cons, ih, data_enqueue]

@[simp] theorem mem_queued_enqueueAll {s : State α σ} {found : List α} {y : α} :
    y ∈ (s.enqueueAll found).queued ↔ y ∈ s.queued ∨ y ∈ found := by
  induction found generalizing s with
  | nil => simp
  | cons x found ih => rw [enqueueAll_cons, ih, mem_queued_enqueue, List.mem_cons, or_assoc]

theorem mem_work_enqueueAll {s : State α σ} {found : List α} {y : α} :
    y ∈ (s.enqueueAll found).work ↔ y ∈ s.work ∨ (y ∈ found ∧ y ∉ s.queued) := by
  induction found generalizing s with
  | nil => simp
  | cons x found ih =>
      rw [enqueueAll_cons, ih, mem_work_enqueue, mem_queued_enqueue, List.mem_cons]
      constructor
      · rintro ((h | ⟨rfl, h⟩) | ⟨h, hnot⟩)
        · exact Or.inl h
        · exact Or.inr ⟨Or.inl rfl, h⟩
        · exact Or.inr ⟨Or.inr h, fun hq => hnot (Or.inl hq)⟩
      · rintro (h | ⟨rfl | h, hnot⟩)
        · exact Or.inl (Or.inl h)
        · exact Or.inl (Or.inr ⟨rfl, hnot⟩)
        · by_cases hyx : y = x
          · exact Or.inl (Or.inr ⟨hyx, hyx ▸ hnot⟩)
          · exact Or.inr ⟨h, fun hq => hq.elim hnot hyx⟩

/-- The same state with other data. -/
def map {τ : Type*} (f : σ → τ) (s : State α σ) : State α τ :=
  ⟨s.work, s.queued, f s.data⟩

theorem map_enqueueAll {τ : Type*} (f : σ → τ) (s : State α σ) (found : List α) :
    (s.enqueueAll found).map f = (s.map f).enqueueAll found := by
  induction found generalizing s with
  | nil => rfl
  | cons x found ih =>
      have hone : (s.enqueue x).map f = (s.map f).enqueue x := by
        by_cases hx : x ∈ s.queued <;> simp [enqueue, map, hx]
      rw [enqueueAll_cons, enqueueAll_cons, ih, hone]

section Step

variable {s : State α σ} {x : α} {rest : List α}

omit [DecidableEq α] in
theorem head_mem_work (hwork : s.work = x :: rest) : x ∈ s.work := by
  rw [hwork]
  exact List.mem_cons_self ..

omit [DecidableEq α] in
theorem tail_mem_work (hwork : s.work = x :: rest) {y : α} (hy : y ∈ rest) : y ∈ s.work := by
  rw [hwork]
  exact List.mem_cons_of_mem _ hy

theorem work_queued_step (data : σ) (found : List α) (hwork : s.work = x :: rest)
    (h : ∀ y ∈ s.work, y ∈ s.queued) :
    ∀ y ∈ ({ s with work := rest, data := data }.enqueueAll found).work,
      y ∈ ({ s with work := rest, data := data }.enqueueAll found).queued := by
  intro y hy
  rw [mem_queued_enqueueAll]
  rcases mem_work_enqueueAll.mp hy with hy | ⟨hy, -⟩
  · exact Or.inl (h y (tail_mem_work hwork hy))
  · exact Or.inr hy

/-- After an iteration, what was queued is on the queue or done, if the element that
was popped is done. -/
theorem covered_step {Done Done' : α → Prop} (data : σ) (found : List α)
    (hwork : s.work = x :: rest) (h : ∀ y ∈ s.queued, y ∈ s.work ∨ Done y)
    (hkeep : ∀ y, Done y → Done' y) (hx : Done' x) :
    ∀ y ∈ ({ s with work := rest, data := data }.enqueueAll found).queued,
      y ∈ ({ s with work := rest, data := data }.enqueueAll found).work ∨ Done' y := by
  intro y hy
  rw [mem_queued_enqueueAll] at hy
  rw [mem_work_enqueueAll]
  by_cases hold : y ∈ s.queued
  · have hcov := h y hold
    rw [hwork, List.mem_cons] at hcov
    rcases hcov with (rfl | hrest) | hdone
    · exact Or.inr hx
    · exact Or.inl (Or.inl hrest)
    · exact Or.inr (hkeep y hdone)
  · -- it is new, so it was pushed
    exact Or.inl (Or.inr ⟨hy.resolve_left hold, hold⟩)

end Step

/-- What was queued is done or on the queue, and nothing is so twice. -/
structure Exact (s : State α σ) (done : List α) : Prop where
  nodup : (done ++ s.work).Nodup
  mem_queued_iff : ∀ y, y ∈ s.queued ↔ y ∈ done ++ s.work

theorem Exact.enqueueAll {s : State α σ} {done : List α} (h : s.Exact done) (found : List α) :
    (s.enqueueAll found).Exact done := by
  induction found generalizing s with
  | nil => exact h
  | cons x found ih =>
      rw [enqueueAll_cons]
      apply ih
      by_cases hx : x ∈ s.queued
      · have hsame : s.enqueue x = s := if_pos hx
        rwa [hsame]
      · have hpush : s.enqueue x = { s with work := s.work ++ [x], queued := insert x s.queued } :=
          if_neg hx
        rw [hpush]
        constructor
        · rw [← List.append_assoc, List.nodup_append]
          refine ⟨h.nodup, List.nodup_singleton x, ?_⟩
          rintro y hy _ hsingle rfl
          rw [List.mem_singleton.mp hsingle] at hy
          exact hx ((h.mem_queued_iff x).mpr hy)
        · intro y
          simp only [Finset.mem_insert, h.mem_queued_iff, List.mem_append, List.mem_singleton]
          rw [or_comm, or_assoc]

section

omit [DecidableEq α]

variable {s : State α σ} {done : List α}

theorem Exact.pop (h : s.Exact done) {x : α} {rest : List α} (hwork : s.work = x :: rest)
    (data : σ) :
    ({ s with work := rest, data := data } : State α σ).Exact (done ++ [x]) := by
  have hsplit : done ++ [x] ++ rest = done ++ s.work := by
    rw [hwork, List.append_assoc, List.singleton_append]
  exact ⟨hsplit ▸ h.nodup, fun y => by rw [hsplit]; exact h.mem_queued_iff y⟩

theorem Exact.nodup_done (h : s.Exact done) : done.Nodup :=
  (List.nodup_append.mp h.nodup).1

theorem Exact.mem_queued_of_done (h : s.Exact done) {x : α} (hx : x ∈ done) : x ∈ s.queued :=
  (h.mem_queued_iff x).mpr (List.mem_append_left _ hx)

theorem Exact.mem_queued_of_work (h : s.Exact done) {x : α} {rest : List α}
    (hwork : s.work = x :: rest) : x ∈ s.queued := by
  rw [h.mem_queued_iff, hwork]
  exact List.mem_append_right _ (List.mem_cons_self ..)

theorem Exact.notMem_done (h : s.Exact done) {x : α} {rest : List α} (hwork : s.work = x :: rest) :
    x ∉ done := by
  intro hx
  refine (List.nodup_append.mp h.nodup).2.2 x hx x ?_ rfl
  rw [hwork]
  exact List.mem_cons_self ..

end

/-- Pushing what was queued before changes nothing. -/
theorem enqueueAll_eq_self {s : State α σ} {found : List α} (h : ∀ x ∈ found, x ∈ s.queued) :
    s.enqueueAll found = s := by
  induction found with
  | nil => rfl
  | cons x found ih =>
      rw [List.forall_mem_cons] at h
      have hsame : s.enqueue x = s := if_pos h.1
      rw [enqueueAll_cons, hsame, ih h.2]

variable [Fintype α]

/-- The queue length plus the number of elements that were never queued. -/
def potential (s : State α σ) : ℕ :=
  s.work.length + (Fintype.card α - s.queued.card)

theorem potential_enqueue (s : State α σ) (x : α) :
    (s.enqueue x).potential = s.potential := by
  unfold enqueue
  split
  · rfl
  · next hx =>
      have hcard : (insert x s.queued).card ≤ Fintype.card α := Finset.card_le_univ _
      rw [Finset.card_insert_of_notMem hx] at hcard
      simp only [potential, List.length_append, List.length_singleton,
        Finset.card_insert_of_notMem hx]
      omega

theorem potential_enqueueAll (s : State α σ) (found : List α) :
    (s.enqueueAll found).potential = s.potential := by
  induction found generalizing s with
  | nil => rfl
  | cons x found ih => rw [enqueueAll_cons, ih, potential_enqueue]

end State

open State

/-- The loop.  `none` means that the fuel, or that of a visit, ran out. -/
def run (visit : α → σ → Option (σ × List α)) : ℕ → State α σ → Option σ
  | 0, _ => none
  | fuel + 1, s =>
    match s.work with
    | [] => some s.data
    | x :: rest =>
      match visit x s.data with
      | none => none
      | some (data, found) =>
        run visit fuel ({ s with work := rest, data := data }.enqueueAll found)

/-- More fuel, for the loop and for its visits, does not change a result. -/
theorem run_mono {visit visit' : α → σ → Option (σ × List α)}
    (hvisit : ∀ x data r, visit x data = some r → visit' x data = some r) {fuel larger : ℕ}
    (hle : fuel ≤ larger) {s : State α σ} {data : σ} (h : run visit fuel s = some data) :
    run visit' larger s = some data := by
  induction fuel generalizing larger s with
  | zero => simp [run] at h
  | succ fuel ih =>
      obtain ⟨larger, rfl⟩ : ∃ n, larger = n + 1 := ⟨larger - 1, by omega⟩
      unfold run at h ⊢
      cases hwork : s.work with
      | nil => simpa [hwork] using h
      | cons x rest =>
          simp only [hwork] at h ⊢
          cases hx : visit x s.data with
          | none => simp [hx] at h
          | some r =>
              simp only [hx, hvisit _ _ _ hx] at h ⊢
              exact ih (by omega) h

/-- A loop on data that other data is mapped to does what the other loop does, if each of its
visits does. -/
theorem run_map {τ : Type*} {f : σ → τ} {visit : α → σ → Option (σ × List α)}
    {visit' : α → τ → Option (τ × List α)}
    (hvisit : ∀ x data, visit' x (f data) = (visit x data).map fun r => (f r.1, r.2))
    (fuel : ℕ) (s : State α σ) : run visit' fuel (s.map f) = (run visit fuel s).map f := by
  induction fuel generalizing s with
  | zero => rfl
  | succ fuel ih =>
      unfold run
      cases hwork : s.work with
      | nil => simp only [State.map, hwork, Option.map_some]
      | cons x rest =>
          simp only [State.map, hwork, hvisit]
          cases visit x s.data with
          | none => rfl
          | some r => rw [← ih, map_enqueueAll]; rfl

/-- **The invariant rule, for a loop that may not end.**  If each visit that succeeds keeps the
invariant, then a loop that ends does so with the invariant and an empty queue. -/
theorem run_invariant {visit : α → σ → Option (σ × List α)} (Inv : State α σ → Prop)
    (hstep : ∀ s x rest data found, Inv s → s.work = x :: rest →
      visit x s.data = some (data, found) →
      Inv ({ s with work := rest, data := data }.enqueueAll found))
    {fuel : ℕ} {s : State α σ} {result : σ} (hinv : Inv s) (h : run visit fuel s = some result) :
    ∃ s', s'.data = result ∧ Inv s' ∧ s'.work = [] := by
  induction fuel generalizing s with
  | zero => cases h
  | succ fuel ih =>
      unfold run at h
      cases hwork : s.work with
      | nil =>
          rw [hwork] at h
          exact ⟨s, Option.some.inj h, hinv, hwork⟩
      | cons x rest =>
          simp only [hwork] at h
          cases hvisit : visit x s.data with
          | none => simp [hvisit] at h
          | some r =>
              rw [hvisit] at h
              exact ih (hstep s x rest r.1 r.2 hinv hwork hvisit) h

/-- **The invariant rule.**  If every visit made under the invariant succeeds
and keeps it, then the loop ends, with the invariant and an empty queue. -/
theorem run_spec [Fintype α] {visit : α → σ → Option (σ × List α)} (Inv : State α σ → Prop)
    (hstep : ∀ s x rest, Inv s → s.work = x :: rest → ∃ data found,
      visit x s.data = some (data, found) ∧
        Inv ({ s with work := rest, data := data }.enqueueAll found))
    {fuel : ℕ} {s : State α σ} (hinv : Inv s) (hfuel : s.potential < fuel) :
    ∃ s', run visit fuel s = some s'.data ∧ Inv s' ∧ s'.work = [] := by
  induction fuel generalizing s with
  | zero => omega
  | succ fuel ih =>
      unfold run
      cases hwork : s.work with
      | nil => exact ⟨s, rfl, hinv, hwork⟩
      | cons x rest =>
          obtain ⟨data, found, hvisit, hnext⟩ := hstep s x rest hinv hwork
          simp only [hvisit]
          apply ih hnext
          -- the pop pays for the iteration, the pushes are free
          rw [potential_enqueueAll]
          simp only [potential, hwork, List.length_cons] at hfuel ⊢
          omega

/-- **The invariant rule, without a bound on the visits.**  If every visit made
under the invariant succeeds with enough fuel and keeps it, then from some fuel
on the loop ends with the same data. -/
theorem run_eventually [Fintype α] {visit : ℕ → α → σ → Option (σ × List α)}
    (hmono : ∀ {fuel larger}, fuel ≤ larger → ∀ x data r,
      visit fuel x data = some r → visit larger x data = some r)
    (Inv : State α σ → Prop)
    (hstep : ∀ s x rest, Inv s → s.work = x :: rest → ∃ fuel data found,
      visit fuel x s.data = some (data, found) ∧
        Inv ({ s with work := rest, data := data }.enqueueAll found))
    {s : State α σ} (hinv : Inv s) :
    ∃ bound s', (∀ fuel ≥ bound, run (visit fuel) fuel s = some s'.data) ∧
      Inv s' ∧ s'.work = [] := by
  -- each visit takes an element off the queue, and each element is pushed once
  induction hpot : s.potential using Nat.strong_induction_on generalizing s with
  | _ potential ih =>
      cases hwork : s.work with
      | nil =>
          refine ⟨1, s, fun fuel hfuel => ?_, hinv, hwork⟩
          obtain ⟨fuel, rfl⟩ : ∃ n, fuel = n + 1 := ⟨fuel - 1, by omega⟩
          simp [run, hwork]
      | cons x rest =>
          obtain ⟨first, data, found, hvisit, hnext⟩ := hstep s x rest hinv hwork
          have hless : ({ s with work := rest, data := data }.enqueueAll found).potential <
              potential := by
            rw [potential_enqueueAll, ← hpot]
            simp only [State.potential, hwork, List.length_cons]
            omega
          obtain ⟨bound, s', hrun, hdone⟩ := ih _ hless hnext rfl
          refine ⟨max first bound + 1, s', fun fuel hfuel => ?_, hdone⟩
          obtain ⟨fuel, rfl⟩ : ∃ n, fuel = n + 1 := ⟨fuel - 1, by omega⟩
          have hrest := hrun fuel (by omega)
          unfold run
          simp only [hwork, hmono (show first ≤ fuel + 1 by omega) x s.data _ hvisit]
          exact run_mono (hmono (Nat.le_succ fuel)) (le_refl _) hrest

/-- A loop that ends has visited the front of its queue. -/
theorem run_cons {visit : α → σ → Option (σ × List α)} {steps : ℕ} {s : State α σ} {result : σ}
    (h : run visit steps s = some result) {x : α} {rest : List α} (hwork : s.work = x :: rest) :
    ∃ data found steps, visit x s.data = some (data, found) ∧
      run visit steps ({ s with work := rest, data := data }.enqueueAll found) = some result := by
  cases steps with
  | zero => cases h
  | succ steps =>
      unfold run at h
      simp only [hwork] at h
      cases hvisit : visit x s.data with
      | none => simp [hvisit] at h
      | some r =>
          rw [hvisit] at h
          exact ⟨r.1, r.2, steps, rfl, h⟩

/-! ## The states that a loop goes through -/

section Passes

variable {visit : ℕ → α → σ → Option (σ × List α)} {s₀ s : State α σ}

/-- The states that the loop goes through, whatever the fuel of its visits is. -/
inductive Passes (visit : ℕ → α → σ → Option (σ × List α)) (s₀ : State α σ) : State α σ → Prop
  | start : Passes visit s₀ s₀
  | visit {s : State α σ} {x : α} {rest : List α} {fuel : ℕ} {data : σ} {found : List α} :
      Passes visit s₀ s → s.work = x :: rest → visit fuel x s.data = some (data, found) →
      Passes visit s₀ ({ s with work := rest, data := data }.enqueueAll found)

/-- A loop that ends goes through a state with an empty queue and the data that it ends with. -/
theorem Passes.of_run {fuel steps : ℕ} {result : σ} (h : run (visit fuel) steps s₀ = some result) :
    ∃ s, Passes visit s₀ s ∧ s.work = [] ∧ s.data = result := by
  obtain ⟨s, hresult, hpasses, hdone⟩ := run_invariant (Passes visit s₀)
    (fun s x rest data found hs hwork hvisit => .visit hs hwork hvisit) .start h
  exact ⟨s, hpasses, hdone, hresult⟩

/-- **A loop that ends does so from every state that it goes through**, with the same data. -/
theorem Passes.run_eq
    (hmono : ∀ {fuel larger}, fuel ≤ larger → ∀ x data r,
      visit fuel x data = some r → visit larger x data = some r)
    (h : Passes visit s₀ s) {fuel steps : ℕ} {result : σ}
    (hrun : run (visit fuel) steps s₀ = some result) :
    ∃ steps, run (visit fuel) steps s = some result := by
  induction h with
  | start => exact ⟨steps, hrun⟩
  | @visit s x rest fuel' data found _ hwork hvisit ih =>
      obtain ⟨steps, hrun⟩ := ih
      obtain ⟨data', found', steps', hother, hrest⟩ := run_cons hrun hwork
      -- the fuel of a visit does not matter
      have hlarge := hmono (le_max_left fuel fuel') x s.data _ hother
      rw [hmono (le_max_right fuel fuel') x s.data _ hvisit] at hlarge
      obtain ⟨rfl, rfl⟩ := Prod.mk.inj (Option.some.inj hlarge)
      exact ⟨steps', hrest⟩

end Passes

end Worklist
