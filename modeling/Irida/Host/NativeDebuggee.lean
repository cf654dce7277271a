import Irida.Base
import Mathlib.Order.Defs.Unbundled

/-!
# The native debuggee

`native_debuggee.hpp`: a process under a debugger, as the native backend sees it.
A debuggee is a state and the operations on it; each of them may fail.
-/

namespace Irida.Host

/-- `DbgEventKind`. -/
inductive DbgEventKind
  | breakpoint
  | singleStep
  | exception
  | exitProcess
  | loadModule
  | other
  deriving DecidableEq, Repr

/-- `DbgEvent`. -/
structure DbgEvent where
  kind : DbgEventKind := .other
  threadId : U32 := 0
  address : U64 := 0
  code : U32 := 0
  deriving DecidableEq, Repr

/-- A host call: it takes a state to a result and the next state. -/
abbrev Call (δ α : Type) := ExceptT String (StateM δ) α

/-- `NativeDebuggee`. -/
structure NativeDebuggee (δ : Type) where
  attach : U32 → Call δ Unit
  detach : Call δ Unit
  /-- with the timeout in milliseconds, or a negative number for none -/
  waitEvent : ℤ → Call δ DbgEvent
  resume : Call δ Unit
  resumeSingleStep : Call δ Unit
  requestStop : Call δ Unit
  readRegisters : U32 → Call δ Bytes
  writeRegisters : U32 → Bytes → Call δ Unit
  readMemory : U64 → U64 → Call δ Bytes
  writeMemory : U64 → Bytes → Call δ Unit
  setHwExecBp : ℤ → U64 → Call δ Unit
  clearHwBp : ℤ → Call δ Unit
  primaryThread : δ → U32

/-- `primary_thread` as a call. -/
def NativeDebuggee.primary {δ : Type} (host : NativeDebuggee δ) : Call δ U32 := fun d =>
  (.ok (host.primaryThread d), d)

namespace Call

variable {δ α β : Type}

/-- The outcome of a call in a state. -/
def outcome (x : Call δ α) (d : δ) : Result α × δ :=
  x d

theorem outcome_of_fst {x : Call δ α} {d : δ} {r : Result α} (h : (outcome x d).1 = r) :
    outcome x d = (r, (outcome x d).2) := by
  rw [← h]

@[simp] theorem outcome_modify (f : δ → δ) (d : δ) :
    outcome (modify f : Call δ Unit) d = (.ok (), f d) :=
  rfl

@[simp] theorem outcome_primary (host : NativeDebuggee δ) (d : δ) :
    outcome host.primary d = (.ok (host.primaryThread d), d) :=
  rfl

/-- A call followed by another one, which runs only if the first succeeds. -/
theorem outcome_bind (x : Call δ α) (f : α → Call δ β) (d : δ) :
    outcome (x >>= f) d =
      match outcome x d with
      | (.ok a, d') => outcome (f a) d'
      | (.error e, d') => (.error e, d') := by
  show (ExceptT.bind x f) d = _
  simp only [ExceptT.bind, ExceptT.mk, outcome]
  show (match x d with
    | (r, d') => ExceptT.bindCont f r d') = _
  rcases x d with ⟨_ | _, _⟩ <;> rfl

theorem outcome_bind_ok {x : Call δ α} {d d' : δ} {a : α} (h : outcome x d = (.ok a, d'))
    (f : α → Call δ β) : outcome (x >>= f) d = outcome (f a) d' := by
  rw [outcome_bind, h]

theorem outcome_bind_error {x : Call δ α} {d d' : δ} {e : String}
    (h : outcome x d = (.error e, d')) (f : α → Call δ β) :
    outcome (x >>= f) d = (.error e, d') := by
  rw [outcome_bind, h]

/-- If a sequence succeeds, so does each call of it. -/
theorem outcome_bind_eq_ok {x : Call δ α} {f : α → Call δ β} {d d' : δ} {b : β}
    (h : outcome (x >>= f) d = (.ok b, d')) :
    ∃ a d₁, outcome x d = (.ok a, d₁) ∧ outcome (f a) d₁ = (.ok b, d') := by
  rw [outcome_bind] at h
  split at h
  case h_1 a d₁ heq => exact ⟨a, d₁, heq, h⟩
  case h_2 e d₁ heq => cases h

/-! ## Frames -/

/-- Whatever its result, the call relates the state before it to the state after it. -/
def Keeps (R : δ → δ → Prop) (x : Call δ α) : Prop :=
  ∀ d, R d (outcome x d).2

theorem Keeps.of_outcome {R : δ → δ → Prop} {x : Call δ α} (h : Keeps R x) {d d' : δ} {r : Result α}
    (hcall : outcome x d = (r, d')) : R d d' := by
  have hkept := h d
  rwa [hcall] at hkept

section

variable {R : δ → δ → Prop} [IsPreorder δ R]

theorem Keeps.bind {x : Call δ α} {f : α → Call δ β} (hx : Keeps R x) (hf : ∀ a, Keeps R (f a)) :
    Keeps R (x >>= f) := by
  intro d
  have hfirst := hx d
  rw [outcome_bind]
  rcases hcall : outcome x d with ⟨_ | a, d'⟩ <;> rw [hcall] at hfirst
  · exact hfirst
  · exact IsTrans.trans d d' _ hfirst (hf a d')

theorem Keeps.pure (a : α) : Keeps R (Pure.pure a : Call δ α) :=
  fun d => refl d

theorem Keeps.primary (host : NativeDebuggee δ) : Keeps R host.primary :=
  fun d => refl d

end

end Call

end Irida.Host
