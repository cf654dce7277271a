import Irida.Target.Target
import Mathlib.Logic.Relation

/-!
# Sessions

The user interface reaches a session through the C functions of `capi.cpp`, which call the entry of
the backend's vtable, if there is a session and the backend has the entry.

The controller takes the epoch for the number of the stop: it has the panels reloaded after a call
only if the epoch changed.  `Stamped` is what it relies on.  The sessions of `capi_target.cpp` are
`Stamped` (`stamped_core`).
-/

namespace Irida.Api

/-- `IridaRegister`. -/
structure RegisterRow where
  name : String
  value : U64
  hint : Option String := none
  deriving DecidableEq, Repr

/-- The entries of `IridaBackendVTable` that the controller and the registers panel reach, over the
state behind `ctx`.  An entry may be null. -/
structure BackendVTable (σ : Type*) where
  registers : Option (σ → List RegisterRow) := none
  stateEpoch : Option (σ → U64) := none
  stepInto : Option (σ → σ) := none
  stepOver : Option (σ → σ) := none
  stepOut : Option (σ → σ) := none
  cont : Option (σ → σ) := none
  brk : Option (σ → σ) := none
  restart : Option (σ → σ) := none
  stop : Option (σ → σ) := none
  bpToggle : Option (U64 → σ → σ) := none
  bpSetEnabled : Option (U64 → Bool → σ → σ) := none
  analyze : Option (σ → σ) := none

/-- The operations of a session that step or run it. -/
inductive ControlOp
  | stepInto
  | stepOver
  | stepOut
  | cont
  | brk
  | restart
  | stop
  deriving DecidableEq

/-- The calls that change a session. -/
inductive SessionCall
  | control (op : ControlOp)
  | bpToggle (addr : U64)
  | bpSetEnabled (addr : U64) (enabled : Bool)
  | analyze
  deriving DecidableEq

section Calls

variable {σ : Type*} (vt : BackendVTable σ)

/-- The entry that a call goes to. -/
def BackendVTable.entry : SessionCall → Option (σ → σ)
  | .control .stepInto => vt.stepInto
  | .control .stepOver => vt.stepOver
  | .control .stepOut => vt.stepOut
  | .control .cont => vt.cont
  | .control .brk => vt.brk
  | .control .restart => vt.restart
  | .control .stop => vt.stop
  | .bpToggle addr => vt.bpToggle.map fun f => f addr
  | .bpSetEnabled addr enabled => vt.bpSetEnabled.map fun f => f addr enabled
  | .analyze => vt.analyze

/-- `irida_step_into`, `irida_bp_toggle` and the others, on a session or the null pointer. -/
def iridaCall (c : SessionCall) (s : Option σ) : Option σ :=
  match s, vt.entry c with
  | some s, some f => some (f s)
  | s, _ => s

/-- `irida_registers`. -/
def iridaRegisters (s : Option σ) : List RegisterRow :=
  match s, vt.registers with
  | some s, some f => f s
  | _, _ => []

/-- `irida_state_epoch`. -/
def iridaStateEpoch (s : Option σ) : U64 :=
  match s, vt.stateEpoch with
  | some s, some f => f s
  | _, _ => 0

/-- The epoch is that of the registers: while it stays they stay, and only steps and runs change
it.  This is asked of the states that the backend can be in. -/
structure Stamped (Live : σ → Prop) : Prop where
  live : ∀ c f, vt.entry c = some f → ∀ s, Live s → Live (f s)
  frozen : ∀ c f, vt.entry c = some f → ∀ s, Live s →
    iridaStateEpoch vt (some (f s)) = iridaStateEpoch vt (some s) →
      iridaRegisters vt (some (f s)) = iridaRegisters vt (some s)
  still : ∀ c f, vt.entry c = some f → (∀ op, c ≠ .control op) → ∀ s, Live s →
    iridaStateEpoch vt (some (f s)) = iridaStateEpoch vt (some s)
  count : ∀ s, Live s → (iridaRegisters vt (some s)).length < 2 ^ 31

variable {vt} {Live : σ → Prop} {s : Option σ} {c : SessionCall}

theorem iridaCall_eq_some {x : σ} (h : iridaCall vt c s = some x) :
    s = some x ∨ ∃ y f, s = some y ∧ vt.entry c = some f ∧ x = f y := by
  unfold iridaCall at h
  split at h
  · next y f hentry => exact Or.inr ⟨y, f, rfl, hentry, (Option.some.inj h).symm⟩
  · exact Or.inl h

theorem Stamped.live_call (h : Stamped vt Live) (hs : ∀ x ∈ s, Live x) :
    ∀ x ∈ iridaCall vt c s, Live x := by
  intro x hx
  rcases iridaCall_eq_some hx with hsame | ⟨y, f, rfl, hentry, rfl⟩
  · exact hs x hsame
  · exact h.live c f hentry y (hs y rfl)

theorem Stamped.registers_call (h : Stamped vt Live) (hs : ∀ x ∈ s, Live x)
    (hepoch : iridaStateEpoch vt (iridaCall vt c s) = iridaStateEpoch vt s) :
    iridaRegisters vt (iridaCall vt c s) = iridaRegisters vt s := by
  unfold iridaCall at hepoch ⊢
  split at hepoch
  · next x f hentry => exact h.frozen c f hentry x (hs x rfl) hepoch
  · rfl

theorem Stamped.epoch_call (h : Stamped vt Live) (hs : ∀ x ∈ s, Live x)
    (hc : ∀ op, c ≠ .control op) :
    iridaStateEpoch vt (iridaCall vt c s) = iridaStateEpoch vt s := by
  unfold iridaCall
  split
  · next x f hentry => exact h.still c f hentry hc x (hs x rfl)
  · rfl

theorem Stamped.count_call (h : Stamped vt Live) (hs : ∀ x ∈ s, Live x) :
    (iridaRegisters vt s).length < 2 ^ 31 := by
  cases s with
  | none => simp [iridaRegisters]
  | some x => exact h.count x (hs x rfl)

end Calls

/-! ## Sessions of the core -/

section Core

variable {β : Type*} (ops : Backend β)

/-- `core_registers`. -/
def coreRegisters (t : Target β) : List RegisterRow :=
  t.state.registers.regs.map fun reg => { name := reg.1, value := reg.2 }

/-- The entries of `kCoreVTable`.  Stepping over and out is an alias of a step, and what is not
wired yet does nothing.  The analysis is left open but for what it does to the target. -/
def coreVTable (runAnalysis : Target β → Target β) : BackendVTable (Target β) where
  registers := some coreRegisters
  stateEpoch := some fun t => t.epoch
  stepInto := some fun t => (t.step ops).2
  stepOver := some fun t => (t.step ops).2
  stepOut := some fun t => (t.step ops).2
  cont := some fun t => (t.cont ops).2
  brk := some id
  restart := some id
  stop := some id
  bpToggle := some fun _ t => t
  bpSetEnabled := some fun _ _ t => t
  analyze := some runAnalysis

/-- What is left of the target after some reads of memory. -/
def ReadsOnly : Target β → Target β → Prop :=
  Relation.ReflTransGen fun t t' => ∃ addr len, t' = (t.readMemory ops addr len).2

variable {ops}

theorem ReadsOnly.same {t t' : Target β} (h : ReadsOnly ops t t') :
    t'.epoch = t.epoch ∧ t'.state = t.state := by
  induction h with
  | refl => exact ⟨rfl, rfl⟩
  | tail _ hread ih =>
      obtain ⟨addr, len, rfl⟩ := hread
      exact ih

theorem length_decodeQwords (names : List String) (block : Bytes) :
    (RegisterSet.decodeQwords names block).1.length ≤ names.length := by
  induction names generalizing block with
  | nil => rfl
  | cons name names ih =>
      unfold RegisterSet.decodeQwords
      split
      · exact Nat.zero_le _
      · exact Nat.succ_le_succ (ih _)

theorem length_decode {block : Bytes} {registers : RegisterSet}
    (h : RegisterSet.decode block = .ok registers) : registers.regs.length ≤ 18 := by
  have hlen := length_decodeQwords RegisterSet.kQwordRegs block
  rw [show RegisterSet.kQwordRegs.length = 17 from rfl] at hlen
  unfold RegisterSet.decode at h
  dsimp only at h
  split at h
  · cases h
    exact Nat.le_succ_of_le hlen
  · cases h
    rw [List.length_append, List.length_singleton]
    exact Nat.succ_le_succ hlen

/-- A run call counts the epoch up and takes over new registers, or leaves both as they are. -/
theorem resume_epoch (run : β → Result Backend.StopReply × β) (t : Target β) :
    ((t.resume ops run).2.epoch = t.epoch + 1 ∧
        (t.resume ops run).2.state.registers.regs.length ≤ 18) ∨
      (t.resume ops run).2.epoch = t.epoch ∧ (t.resume ops run).2.state = t.state := by
  unfold Target.resume
  split
  · exact Or.inr ⟨rfl, rfl⟩
  · next b hrun =>
      unfold Target.refreshState
      dsimp only
      cases hread : ops.readRegisters b with
      | mk block b' =>
          cases block with
          | error e => exact Or.inr ⟨rfl, rfl⟩
          | ok block =>
              cases hdecode : RegisterSet.decode block with
              | error e => simp [hdecode]
              | ok registers => simp [hdecode, length_decode hdecode]

/-- What an entry does: a step or a run call may bring a new stop, and all else leaves epoch and
registers as they are. -/
theorem entry_core {runAnalysis : Target β → Target β}
    (hanalysis : ∀ t, ReadsOnly ops t (runAnalysis t)) {c : SessionCall} {f : Target β → Target β}
    (hentry : (coreVTable ops runAnalysis).entry c = some f) (t : Target β) :
    ((∃ op, c = .control op) ∧ (f t).epoch = t.epoch + 1 ∧
        (f t).state.registers.regs.length ≤ 18) ∨
      (f t).epoch = t.epoch ∧ (f t).state = t.state := by
  have hresume := fun run => @resume_epoch β ops run t
  rcases c with op | addr | ⟨addr, enabled⟩ | _
  · cases op <;> obtain rfl := Option.some.inj hentry
    case stepInto => exact (hresume ops.step).imp_left fun h => ⟨⟨_, rfl⟩, h⟩
    case stepOver => exact (hresume ops.step).imp_left fun h => ⟨⟨_, rfl⟩, h⟩
    case stepOut => exact (hresume ops.step).imp_left fun h => ⟨⟨_, rfl⟩, h⟩
    case cont => exact (hresume ops.cont).imp_left fun h => ⟨⟨_, rfl⟩, h⟩
    all_goals exact Or.inr ⟨rfl, rfl⟩
  · obtain rfl := Option.some.inj hentry
    exact Or.inr ⟨rfl, rfl⟩
  · obtain rfl := Option.some.inj hentry
    exact Or.inr ⟨rfl, rfl⟩
  · obtain rfl := Option.some.inj hentry
    exact Or.inr (hanalysis t).same

/-- **The sessions of the core are stamped.** -/
theorem stamped_core {runAnalysis : Target β → Target β}
    (hanalysis : ∀ t, ReadsOnly ops t (runAnalysis t)) :
    Stamped (coreVTable ops runAnalysis) fun t => t.state.registers.regs.length < 2 ^ 31 where
  live c f hentry t ht := by
    rcases entry_core hanalysis hentry t with ⟨-, -, hlen⟩ | ⟨-, hstate⟩
    · omega
    · rwa [hstate]
  frozen c f hentry t _ hepoch := by
    rcases entry_core hanalysis hentry t with ⟨-, hnext, -⟩ | ⟨-, hstate⟩
    · have hsame : t.epoch + 1 = t.epoch := hnext.symm.trans hepoch
      exact absurd hsame (by bv_omega)
    · show coreRegisters (f t) = coreRegisters t
      rw [coreRegisters, hstate, coreRegisters]
  still c f hentry hc t _ := by
    rcases entry_core hanalysis hentry t with ⟨⟨op, hop⟩, -⟩ | ⟨hsame, -⟩
    · exact absurd hop (hc op)
    · exact hsame
  count t ht := by
    show (coreRegisters t).length < 2 ^ 31
    rwa [coreRegisters, List.length_map]

end Core

end Irida.Api
