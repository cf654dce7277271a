import Irida.Host.NativeDebuggee
import Mathlib.Data.Finset.Insert

/-!
# A process under a debugger

What a debugger may leave behind in a process: bytes of its memory, and debug registers.  A
process is seen with the memory that it would have if nobody but its own program had written it
(`View.own`), so that its memory is `own` exactly if the debugger has left nothing there.

`Shown` says what the calls of a debuggee do to such a view.  A call that fails may have written
all the same; the program may run, and write anywhere, in all calls that resume it or wait.
-/

namespace Irida.Host

/-- A process as the debugger has to leave it. -/
@[ext]
structure View where
  mem : U64 → Byte
  /-- the memory without what the debugger has written since it attached -/
  own : U64 → Byte
  /-- the debug registers that the debugger has enabled since it attached -/
  enabled : Finset ℤ

namespace View

/-- The program may have run: what it has written is its own. -/
structure Runs (v v' : View) : Prop where
  mem : ∀ a, v'.mem a = v.mem a ∧ v'.own a = v.own a ∨ v'.mem a = v'.own a
  enabled : v'.enabled = v.enabled

/-- The debugger may have written the byte at `addr`. -/
structure Writes (addr : U64) (v v' : View) : Prop where
  mem : ∀ a, a ≠ addr → v'.mem a = v.mem a
  own : v'.own = v.own
  enabled : v'.enabled = v.enabled

/-- The debugger may have changed debug registers. -/
structure Sets (v v' : View) : Prop where
  mem : v'.mem = v.mem
  own : v'.own = v.own

/-- Outside the tracked addresses the memory is still the program's own if it was, and no debug
register was changed. -/
structure Leads (tracked : U64 → Prop) (v v' : View) : Prop where
  own : ∀ a, ¬ tracked a → v.mem a = v.own a → v'.mem a = v'.own a
  enabled : v'.enabled = v.enabled

variable {v v' v'' : View} {tracked : U64 → Prop}

theorem Leads.refl (tracked : U64 → Prop) (v : View) : v.Leads tracked v :=
  ⟨fun _ _ h => h, rfl⟩

theorem Leads.trans (h : v.Leads tracked v') (h' : v'.Leads tracked v'') : v.Leads tracked v'' :=
  ⟨fun a ha hown => h'.own a ha (h.own a ha hown), h'.enabled.trans h.enabled⟩

theorem Runs.leads (h : v.Runs v') (tracked : U64 → Prop) : v.Leads tracked v' := by
  refine ⟨fun a _ hown => ?_, h.enabled⟩
  rcases h.mem a with ⟨hmem, hsame⟩ | hmem
  · rw [hmem, hsame, hown]
  · exact hmem

theorem Writes.leads {addr : U64} (h : v.Writes addr v') (haddr : tracked addr) :
    v.Leads tracked v' := by
  refine ⟨fun a ha hown => ?_, h.enabled⟩
  have hne : a ≠ addr := fun heq => ha (heq ▸ haddr)
  rw [h.mem a hne, h.own, hown]

end View

/-- The process behind a debuggee, before and after a call: see `View.Leads`. -/
def LeadsTo {δ : Type} (view : δ → View) (tracked : U64 → Prop) (d d' : δ) : Prop :=
  (view d).Leads tracked (view d')

instance {δ : Type} (view : δ → View) (tracked : U64 → Prop) :
    IsPreorder δ (LeadsTo view tracked) where
  refl _ := .refl tracked _
  trans _ _ _ h h' := h.trans h'

/-- What the calls of a debuggee do to the process. -/
structure Shown {δ : Type} (host : NativeDebuggee δ) (view : δ → View) : Prop where
  attach : ∀ {pid : U32} {d d' : δ}, (host.attach pid).outcome d = (.ok (), d') →
    (view d').mem = (view d').own ∧ (view d').enabled = ∅
  attach_error : ∀ {pid : U32} {d d' : δ} {e : String},
    (host.attach pid).outcome d = (.error e, d') → view d' = view d
  detach : Call.Keeps (fun d d' => view d' = view d) host.detach
  waitEvent : ∀ timeout, Call.Keeps (fun d d' => (view d).Runs (view d')) (host.waitEvent timeout)
  resume : Call.Keeps (fun d d' => (view d).Runs (view d')) host.resume
  resumeSingleStep : Call.Keeps (fun d d' => (view d).Runs (view d')) host.resumeSingleStep
  requestStop : Call.Keeps (fun d d' => (view d).Runs (view d')) host.requestStop
  readRegisters : ∀ tid, Call.Keeps (fun d d' => view d' = view d) (host.readRegisters tid)
  writeRegisters : ∀ tid block,
    Call.Keeps (fun d d' => view d' = view d) (host.writeRegisters tid block)
  readMemory : ∀ addr len, Call.Keeps (fun d d' => view d' = view d) (host.readMemory addr len)
  readMemory_one : ∀ {addr : U64} {d d' : δ} {bytes : Bytes},
    (host.readMemory addr 1).outcome d = (.ok bytes, d') → bytes = [(view d).mem addr]
  writeMemory : ∀ addr x,
    Call.Keeps (fun d d' => (view d).Writes addr (view d')) (host.writeMemory addr [x])
  writeMemory_ok : ∀ {addr : U64} {x : Byte} {d d' : δ},
    (host.writeMemory addr [x]).outcome d = (.ok (), d') → (view d').mem addr = x
  setHwExecBp : ∀ slot addr,
    Call.Keeps (fun d d' => (view d).Sets (view d')) (host.setHwExecBp slot addr)
  clearHwBp : ∀ slot, Call.Keeps (fun d d' => (view d).Sets (view d')) (host.clearHwBp slot)

section

variable {δ α : Type} {view : δ → View} {x : Call δ α}

theorem Call.Keeps.leadsTo_of_eq (h : Call.Keeps (fun d d' => view d' = view d) x)
    (tracked : U64 → Prop) : Call.Keeps (LeadsTo view tracked) x := by
  intro d
  have hview : view (x.outcome d).2 = view d := h d
  rw [LeadsTo, hview]
  exact .refl tracked _

theorem Call.Keeps.leadsTo_of_runs (h : Call.Keeps (fun d d' => (view d).Runs (view d')) x)
    (tracked : U64 → Prop) : Call.Keeps (LeadsTo view tracked) x :=
  fun d => (h d).leads tracked

end

/-! ## Calls that fail without an effect -/

namespace View

/-- The program may have run, and has not written its code. -/
structure Passes (code : Set U64) (v v' : View) : Prop where
  runs : v.Runs v'
  code : ∀ a ∈ code, v'.mem a = v.mem a ∧ v'.own a = v.own a

variable {code : Set U64} {v v' v'' : View}

theorem Passes.refl (code : Set U64) (v : View) : v.Passes code v :=
  ⟨⟨fun _ => Or.inl ⟨rfl, rfl⟩, rfl⟩, fun _ _ => ⟨rfl, rfl⟩⟩

theorem Runs.trans (h : v.Runs v') (h' : v'.Runs v'') : v.Runs v'' := by
  refine ⟨fun a => ?_, h'.enabled.trans h.enabled⟩
  rcases h'.mem a with ⟨hmem', hown'⟩ | hmem'
  · rcases h.mem a with ⟨hmem, hown⟩ | hmem
    · exact Or.inl ⟨hmem'.trans hmem, hown'.trans hown⟩
    · exact Or.inr (hmem'.trans (hmem.trans hown'.symm))
  · exact Or.inr hmem'

theorem Passes.trans (h : v.Passes code v') (h' : v'.Passes code v'') : v.Passes code v'' :=
  ⟨h.runs.trans h'.runs, fun a ha =>
    ⟨(h'.code a ha).1.trans (h.code a ha).1, (h'.code a ha).2.trans (h.code a ha).2⟩⟩

end View

/-- The process behind a debuggee, before and after a call: see `View.Passes`. -/
def PassesTo {δ : Type} (view : δ → View) (code : Set U64) (d d' : δ) : Prop :=
  (view d).Passes code (view d')

instance {δ : Type} (view : δ → View) (code : Set U64) : IsPreorder δ (PassesTo view code) where
  refl d := .refl code (view d)
  trans _ _ _ h h' := h.trans h'

/-- What the calls of a debuggee do to a process whose program does not write its code, if a write
that fails has no effect. -/
structure FailsCleanly {δ : Type} (host : NativeDebuggee δ) (view : δ → View) (code : Set U64) :
    Prop extends Shown host view where
  waitEvent_code : ∀ timeout, Call.Keeps (PassesTo view code) (host.waitEvent timeout)
  resume_code : Call.Keeps (PassesTo view code) host.resume
  resumeSingleStep_code : Call.Keeps (PassesTo view code) host.resumeSingleStep
  writeMemory_error : ∀ {addr : U64} {x : Byte} {d d' : δ} {e : String},
    (host.writeMemory addr [x]).outcome d = (.error e, d') → view d' = view d

end Irida.Host
