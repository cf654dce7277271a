import Mathlib.Data.List.Basic

/-!
# Triples for calls that may fail

`Triple P x Q E`: if `P` holds before the call `x`, then `Q` holds of its result and the state after
it, or `E` of its error and that state.  A call here is a function that returns, so that a triple is
about every run of it.

There is one rule for each way of putting calls together.  `Maintains I x` is the triple of an
invariant, which an error must leave intact as well.
-/

namespace Triples

variable {ε σ α β : Type}

/-- The result of a call in a state, and the state after it. -/
def after (x : ExceptT ε (StateM σ) α) (s : σ) : Except ε α × σ :=
  x s

/-- What holds after a call in every state in which `P` holds. -/
def Triple (P : σ → Prop) (x : ExceptT ε (StateM σ) α) (Q : α → σ → Prop) (E : ε → σ → Prop) :
    Prop :=
  ∀ s, P s → match after x s with
    | (.ok a, s') => Q a s'
    | (.error e, s') => E e s'

/-- The call keeps an invariant, whether it fails or not. -/
def Maintains (I : σ → Prop) (x : ExceptT ε (StateM σ) α) : Prop :=
  Triple I x (fun _ => I) (fun _ => I)

/-- A call that changes the state and does not fail. -/
def total (x : StateM σ α) : ExceptT ε (StateM σ) α := fun s =>
  (.ok (x s).1, (x s).2)

section Rules

variable {P P' : σ → Prop} {Q Q' : α → σ → Prop} {E E' : ε → σ → Prop}
  {x : ExceptT ε (StateM σ) α}

theorem Triple.pure {a : α} (h : ∀ s, P s → Q a s) : Triple P (Pure.pure a) Q E :=
  h

theorem Triple.throw {e : ε} (h : ∀ s, P s → E e s) :
    Triple P (MonadExcept.throw e : ExceptT ε (StateM σ) α) Q E :=
  h

theorem Triple.total {x : StateM σ α} (h : ∀ s, P s → Q (x s).1 (x s).2) :
    Triple P (total x) Q E :=
  h

theorem after_bind (x : ExceptT ε (StateM σ) α) (f : α → ExceptT ε (StateM σ) β) (s : σ) :
    after (x >>= f) s =
      match after x s with
      | (.ok a, s') => after (f a) s'
      | (.error e, s') => (.error e, s') := by
  show ExceptT.bind x f s = _
  simp only [ExceptT.bind, ExceptT.mk, after]
  show (match x s with
    | (r, s') => ExceptT.bindCont f r s') = _
  rcases x s with ⟨_ | _, _⟩ <;> rfl

/-- What the first call leads to, the second one starts from. -/
theorem Triple.bind {R : α → σ → Prop} {Q : β → σ → Prop} {f : α → ExceptT ε (StateM σ) β}
    (hx : Triple P x R E) (hf : ∀ a, Triple (R a) (f a) Q E) : Triple P (x >>= f) Q E := by
  intro s hs
  have hfirst := hx s hs
  rw [after_bind]
  rcases hcall : after x s with ⟨e | a, s'⟩ <;> rw [hcall] at hfirst
  · exact hfirst
  · exact hf a s' hfirst

theorem Triple.weaken (h : Triple P x Q E) (hP : ∀ s, P' s → P s) (hQ : ∀ a s, Q a s → Q' a s)
    (hE : ∀ e s, E e s → E' e s) : Triple P' x Q' E' := by
  intro s hs
  have hcall := h s (hP s hs)
  rcases hafter : after x s with ⟨e | a, s'⟩ <;> rw [hafter] at hcall
  · exact hE e s' hcall
  · exact hQ a s' hcall

theorem Triple.and (h : Triple P x Q E) (h' : Triple P' x Q' E') :
    Triple (fun s => P s ∧ P' s) x (fun a s => Q a s ∧ Q' a s) (fun e s => E e s ∧ E' e s) := by
  intro s hs
  have hcall := h s hs.1
  have hcall' := h' s hs.2
  rcases hafter : after x s with ⟨e | a, s'⟩ <;> rw [hafter] at hcall hcall'
  · exact ⟨hcall, hcall'⟩
  · exact ⟨hcall, hcall'⟩

theorem Triple.of_state_after {R : σ → Prop} (h : ∀ s, P s → R (after x s).2) :
    Triple P x (fun _ => R) (fun _ => R) := by
  intro s hs
  have hcall := h s hs
  rcases hafter : after x s with ⟨e | a, s'⟩ <;> rw [hafter] at hcall <;> exact hcall

theorem Triple.state_after {R : σ → Prop} (h : Triple P x (fun _ => R) (fun _ => R)) {s : σ}
    (hs : P s) : R (after x s).2 := by
  have hcall := h s hs
  rcases hafter : after x s with ⟨e | a, s'⟩ <;> rw [hafter] at hcall <;> exact hcall

end Rules

section Invariants

variable {I : σ → Prop} {x : ExceptT ε (StateM σ) α}

theorem Maintains.of_after (h : ∀ s, I s → I (Triples.after x s).2) : Maintains I x :=
  Triple.of_state_after h

theorem Maintains.after (h : Maintains I x) {s : σ} (hs : I s) : I (after x s).2 :=
  Triple.state_after h hs

theorem Maintains.bind {f : α → ExceptT ε (StateM σ) β} (hx : Maintains I x)
    (hf : ∀ a, Maintains I (f a)) : Maintains I (x >>= f) :=
  Triple.bind hx hf

theorem Maintains.pure (a : α) : Maintains I (Pure.pure a : ExceptT ε (StateM σ) α) :=
  Triple.pure fun _ hs => hs

theorem Maintains.throw (e : ε) :
    Maintains I (MonadExcept.throw e : ExceptT ε (StateM σ) α) :=
  Triple.throw fun _ hs => hs

end Invariants

end Triples
