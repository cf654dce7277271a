import Mathlib.Data.List.Basic

/-!
# Guarded runs

A deterministic system takes the events of a list, one after the other.  `Along` says that a
property of a state and the event that it takes holds all along such a run.

If under an invariant an event does what is expected of it exactly when a guard allows it, and an
event that does so keeps the invariant, then a run is as expected all along if and only if the guard
allows each of its events (`along_iff`).  If events that the guard allows keep an invariant, it
holds in each state of a run of them (`Along.invariant`).
-/

namespace GuardedRuns

variable {σ ε : Type*} (step : σ → ε → σ)

/-- The property holds of each event, and of the state that takes it. -/
def Along (P : σ → ε → Prop) : σ → List ε → Prop
  | _, [] => True
  | s, e :: es => P s e ∧ Along P (step s e) es

instance (P : σ → ε → Prop) [∀ s e, Decidable (P s e)] :
    (s : σ) → (es : List ε) → Decidable (Along step P s es)
  | _, [] => instDecidableTrue
  | s, e :: es =>
    have := instDecidableAlong P (step s e) es
    inferInstanceAs (Decidable (_ ∧ _))

variable {step} {Inv Q : σ → Prop} {Ok Allows : σ → ε → Prop} {s : σ} {es : List ε}

/-- What holds at the start and of each state that an event leads to holds all along a run. -/
theorem along_iff_states :
    (∀ made, made <+: es → Q (made.foldl step s)) ↔
      Q s ∧ Along step (fun s e => Q (step s e)) s es := by
  induction es generalizing s with
  | nil =>
      constructor
      · intro h
        exact ⟨h [] (List.prefix_refl []), trivial⟩
      · rintro ⟨hs, -⟩ made hmade
        obtain rfl := List.prefix_nil.mp hmade
        exact hs
  | cons e es ih =>
      constructor
      · intro h
        have hrest := ih.mp fun made hmade => h (e :: made) (List.cons_prefix_cons.mpr ⟨rfl, hmade⟩)
        exact ⟨h [] List.nil_prefix, hrest⟩
      · rintro ⟨hs, hrest⟩ made hmade
        rcases List.prefix_cons_iff.mp hmade with rfl | ⟨rest, rfl, hrest'⟩
        · exact hs
        · exact ih.mpr hrest rest hrest'

theorem Along.invariant (hkeep : ∀ s e, Inv s → Allows s e → Inv (step s e))
    (h : Along step Allows s es) (hs : Inv s) :
    ∀ made, made <+: es → Inv (made.foldl step s) := by
  refine along_iff_states.mpr ⟨hs, ?_⟩
  induction es generalizing s with
  | nil => trivial
  | cons e es ih =>
      have hnext := hkeep s e hs h.1
      exact ⟨hnext, ih h.2 hnext⟩

/-- **The guard decides** whether a run is as expected. -/
theorem along_iff (hguard : ∀ s e, Inv s → (Ok s e ↔ Allows s e))
    (hkeep : ∀ s e, Inv s → Ok s e → Inv (step s e)) (hs : Inv s) :
    Along step Ok s es ↔ Along step Allows s es := by
  induction es generalizing s with
  | nil => exact Iff.rfl
  | cons e es ih =>
      refine (and_congr_right fun hok => ?_).trans (and_congr_left fun _ => hguard s e hs)
      exact ih (hkeep s e hs hok)

end GuardedRuns
