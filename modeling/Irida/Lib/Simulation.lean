import Mathlib.Data.List.Basic

/-!
# Simulation until something is lost

Two systems answer the same calls.  A call returns a result and leaves a state, and may also never
return.  The first system simulates the second one if corresponding states stay so, and the results
are the same, unless something is lost on the way; what is lost stays lost.

`Link` says which states correspond and in which ones something is lost.  That single calls agree
is enough for whole runs (`run_agrees`), whatever the calls are and in whatever order they are made.

Where nothing is lost, but the second system may end, and may leave it open what a call returns,
single calls that follow give runs that do what it promises (`Follows.run_keeps`).
-/

namespace Simulation

variable {α β γ ρ σ ε : Type*}

/-- Which states of two systems correspond, and in which states of the first one something is
lost. -/
structure Link (α β : Type*) where
  lost : α → Prop
  rel : α → β → Prop
  kept : ∀ {a b}, rel a b → ¬ lost a

/-- What a sequence of calls returns, and the state after them.  It ends at a call that does not
return. -/
def run (step : ε → α → Option (ρ × α)) : List ε → α → List ρ × α
  | [], a => ([], a)
  | e :: es, a =>
    match step e a with
    | none => ([], a)
    | some (r, a) => (r :: (run step es a).1, (run step es a).2)

namespace Link

/-- The same link, beside a part of the state that is the same in both systems. -/
def beside (γ : Type*) (L : Link α β) : Link (γ × α) (γ × β) where
  lost p := L.lost p.2
  rel p q := p.1 = q.1 ∧ L.rel p.2 q.2
  kept h := L.kept h.2

variable (L : Link α β)

/-- Two outcomes agree, unless something was lost in the first one. -/
def Agrees (x : ρ × α) (y : ρ × β) : Prop :=
  L.lost x.2 ∨ x.1 = y.1 ∧ L.rel x.2 y.2

/-- Neither call returns, or their outcomes agree. -/
def AgreesIfAny : Option (ρ × α) → Option (ρ × β) → Prop
  | some x, some y => L.Agrees x y
  | some x, none => L.lost x.2
  | none, none => True
  | none, some _ => False

/-- A call of the first system simulates one of the second. -/
structure Simulates (f : α → ρ × α) (g : β → ρ × β) : Prop where
  lost : ∀ a, L.lost a → L.lost (f a).2
  agrees : ∀ a b, L.rel a b → L.Agrees (f a) (g b)

/-- The same for calls that may not return. -/
structure SimulatesIfAny (f : α → Option (ρ × α)) (g : β → Option (ρ × β)) : Prop where
  lost : ∀ a, L.lost a → ∀ x, f a = some x → L.lost x.2
  agrees : ∀ a b, L.rel a b → L.AgreesIfAny (f a) (g b)

variable {L} {x : ρ × α} {y : ρ × β} {f : α → ρ × α} {g : β → ρ × β}

theorem Agrees.of_not_lost (h : L.Agrees x y) (hkept : ¬ L.lost x.2) :
    x.1 = y.1 ∧ L.rel x.2 y.2 :=
  h.resolve_left hkept

theorem agreesIfAny_of_lost (h : L.lost x.2) (v : Option (ρ × β)) : L.AgreesIfAny (some x) v := by
  cases v with
  | none => exact h
  | some y => exact Or.inl h

theorem AgreesIfAny.some_eq {r : ρ} {a : α} {v : Option (ρ × β)} (h : L.AgreesIfAny (some (r, a)) v)
    (hkept : ¬ L.lost a) : ∃ b, v = some (r, b) ∧ L.rel a b := by
  cases v with
  | none => exact absurd h hkept
  | some y =>
      obtain ⟨r', b⟩ := y
      obtain ⟨rfl, hrel⟩ := Agrees.of_not_lost h hkept
      exact ⟨b, rfl, hrel⟩

theorem Simulates.follows (h : L.Simulates f g) {a a' : α} {b : β} {r : ρ} (hrel : L.rel a b)
    (hcall : f a = (r, a')) : L.lost a' ∨ ∃ b', g b = (r, b') ∧ L.rel a' b' := by
  have hagrees := h.agrees a b hrel
  rw [hcall] at hagrees
  refine hagrees.imp_right fun ⟨heq, hrel'⟩ => ⟨(g b).2, Prod.ext heq.symm rfl, hrel'⟩

theorem Simulates.lost_of_eq (h : L.Simulates f g) {a a' : α} {r : ρ} (hgone : L.lost a)
    (hcall : f a = (r, a')) : L.lost a' := by
  have hkept := h.lost a hgone
  rwa [hcall] at hkept

theorem Simulates.map (h : L.Simulates f g) (k : ρ → σ) :
    L.Simulates (fun a => (k (f a).1, (f a).2)) (fun b => (k (g b).1, (g b).2)) where
  lost a hgone := h.lost a hgone
  agrees a b hrel := (h.agrees a b hrel).imp_right fun ⟨heq, hrel'⟩ => ⟨congrArg k heq, hrel'⟩

theorem Simulates.ifAny (h : L.Simulates f g) :
    L.SimulatesIfAny (fun a => some (f a)) (fun b => some (g b)) where
  lost a hgone x hx := by
    cases hx
    exact h.lost a hgone
  agrees a b hrel := h.agrees a b hrel

/-- **Runs agree.**  If each call of the first system simulates that of the second, then so does
every sequence of calls. -/
theorem run_agrees {step : ε → α → Option (ρ × α)} {step' : ε → β → Option (ρ × β)}
    (h : ∀ e, L.SimulatesIfAny (step e) (step' e)) (es : List ε) :
    L.Simulates (run step es) (run step' es) := by
  induction es with
  | nil => exact ⟨fun a hgone => hgone, fun a b hrel => Or.inr ⟨rfl, hrel⟩⟩
  | cons e es ih =>
      constructor
      · intro a hgone
        rw [run]
        cases hstep : step e a with
        | none => exact hgone
        | some x => exact ih.lost x.2 ((h e).lost a hgone x hstep)
      · intro a b hrel
        have hagrees := (h e).agrees a b hrel
        rw [run, run]
        cases hstep : step e a with
        | none =>
            cases hstep' : step' e b with
            | none => exact Or.inr ⟨rfl, hrel⟩
            | some y =>
                rw [hstep, hstep'] at hagrees
                exact hagrees.elim
        | some x =>
            -- what is lost in this step is lost at the end
            by_cases hgone : L.lost x.2
            · exact Or.inl (ih.lost x.2 hgone)
            rw [hstep] at hagrees
            obtain ⟨b', hstep', hrel'⟩ := hagrees.some_eq hgone
            rw [hstep']
            refine (ih.agrees x.2 b' hrel').imp_right fun hrest => ?_
            exact ⟨congrArg (x.1 :: ·) hrest.1, hrest.2⟩

end Link

/-! ## As long as the other system goes on -/

/-- The result is the one that is promised, if one is. -/
def Keeps (promised : Option ρ) (r : ρ) : Prop :=
  ∀ r' ∈ promised, r = r'

/-- The first results are those that are promised, as many as there are promises. -/
def KeepsAll (promised : List (Option ρ)) (results : List ρ) : Prop :=
  ∃ early later, results = early ++ later ∧ List.Forall₂ Keeps promised early

/-- The first system answers each call that the second one answers, as is promised, and the states
still correspond after it. -/
def Follows (rel : α → β → Prop) (step : ε → α → Option (ρ × α))
    (step' : ε → β → Option (Option ρ × β)) : Prop :=
  ∀ e a b promised b', rel a b → step' e b = some (promised, b') →
    ∃ r a', step e a = some (r, a') ∧ Keeps promised r ∧ rel a' b'

/-- **Runs follow.**  What the second system promises up to where it ends is what the first one
returns. -/
theorem Follows.run_keeps {rel : α → β → Prop} {step : ε → α → Option (ρ × α)}
    {step' : ε → β → Option (Option ρ × β)} (h : Follows rel step step') (es : List ε) {a : α}
    {b : β} (hrel : rel a b) : KeepsAll (run step' es b).1 (run step es a).1 := by
  induction es generalizing a b with
  | nil => exact ⟨[], [], rfl, .nil⟩
  | cons e es ih =>
      rw [run, run]
      cases hstep' : step' e b with
      | none => exact ⟨[], _, rfl, .nil⟩
      | some x =>
          obtain ⟨r, a', hstep, hkeeps, hrel'⟩ := h e a b x.1 x.2 hrel hstep'
          obtain ⟨early, later, hresults, hall⟩ := ih hrel'
          rw [hstep]
          exact ⟨r :: early, later, congrArg (r :: ·) hresults, .cons hkeeps hall⟩

end Simulation
