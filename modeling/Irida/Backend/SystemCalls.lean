import Irida.Backend.Native
import Irida.Host.EventPump
import Irida.Host.Resources

/-!
# The native backend over the operating system

All operations of the native backend in any order, over the debuggee of `native_debuggee.cpp`.
What is said of the debuggee in `Upkeep` holds of the backend after every operation
(`Upkeep.invoke`).  There are two cases of it:

* the debugger has exactly the handle and the process of the debuggee behind `dbg_`, and the files
  that came with events (`Runs.handles_eq`);
* debug events are taken and continued in turns (`Runs.events_in_turn`).  This asks that a process
  is attached to only where there is none, as its callers do: they attach to a new backend.  It ends
  where a process cannot be let go of while it has an event.
-/

namespace Irida

open Host Win32 Triples

/-- `MemMap`. -/
structure Backend.MemMap where
  start : U64 := 0
  «end» : U64 := 0
  /-- bit 2 to read, bit 1 to write, bit 0 to execute, as in `irida.h`; the comment in `types.hpp`
  has it the other way round -/
  perms : Byte := 0
  name : Bytes := []
  deriving DecidableEq, Repr

/-- `Module`. -/
structure Backend.Module where
  base : U64 := 0
  size : U64 := 0
  name : Bytes := []
  deriving DecidableEq, Repr

/-- `ThreadInfo`. -/
structure Backend.ThreadInfo where
  tid : U32 := 0
  pc : U64 := 0
  current : Bool := false
  deriving DecidableEq, Repr

namespace NativeBackend

section

variable {σ : Type} (api : Api σ)

/-- `maps`. -/
def maps : Call (NativeBackend (Debuggee σ)) (List Backend.MemMap) := do
  requireAttached "maps"
  let hostMaps ← onDbg (Win32.maps api)
  return hostMaps.map fun m =>
    { start := m.start, «end» := m.end, perms := m.perms, name := m.name }

/-- `modules`, without a result where the debuggee has none. -/
def modules : Call (NativeBackend (Debuggee σ)) (Option (List Backend.Module)) := do
  requireAttached "modules"
  let hostModules ← onDbg (Win32.modules api)
  return hostModules.map fun l => l.map fun m => { base := m.base, size := m.size, name := m.name }

/-- An entry of `threads`: the thread that has stopped is the current one, and only its program
counter is read. -/
def threadInfo (primary : U32) (t : HostThread) :
    Call (NativeBackend (Debuggee σ)) Backend.ThreadInfo := fun b =>
  if t.tid = primary then
    match (onDbg (Win32.readRegisters api t.tid)).outcome b with
    | (.ok block, b) => (.ok { tid := t.tid, current := true, pc := getSlot block 16 }, b)
    | (.error _, b) => (.ok { tid := t.tid, current := true }, b)
  else (.ok { tid := t.tid }, b)

/-- `threads`. -/
def threads : Call (NativeBackend (Debuggee σ)) (List Backend.ThreadInfo) := do
  requireAttached "threads"
  let hostThreads ← onDbg (Win32.threads api)
  let primary ← onDbg api.debuggee.primary
  hostThreads.mapM (threadInfo api primary)

end

/-- The operations of a native backend. -/
inductive BackendCall
  /-- with the number of events that may arrive -/
  | attach (rounds : ℕ) (pid : U32)
  | detach
  | cont
  | step
  | requestStop
  | readRegisters
  | writeRegisters (block : Bytes)
  | readMemory (addr len : U64)
  | writeMemory (addr : U64) (data : Bytes)
  | maps
  | modules
  | threads
  | setBreakpoint (kind : Backend.BpKind) (addr : U64) (size : ℤ)
  | removeBreakpoint (kind : Backend.BpKind) (addr : U64) (size : ℤ)

section

variable {σ : Type} (api : Api σ)

/-- The backend after an operation, if it returns. -/
def invoke (b : NativeBackend (Debuggee σ)) : BackendCall → Option (NativeBackend (Debuggee σ))
  | .attach rounds pid => (attach api.debuggee rounds pid b).map Prod.snd
  | .detach => some ((detach api.debuggee).outcome b).2
  | .cont => some ((cont api.debuggee).outcome b).2
  | .step => some ((step api.debuggee).outcome b).2
  | .requestStop => some ((requestStop api.debuggee).outcome b).2
  | .readRegisters => some ((readRegisters api.debuggee).outcome b).2
  | .writeRegisters block => some ((writeRegisters api.debuggee block).outcome b).2
  | .readMemory addr len => some ((readMemory api.debuggee addr len).outcome b).2
  | .writeMemory addr data => some ((writeMemory api.debuggee addr data).outcome b).2
  | .maps => some ((maps api).outcome b).2
  | .modules => some ((modules api).outcome b).2
  | .threads => some ((threads api).outcome b).2
  | .setBreakpoint kind addr size =>
    some ((setBreakpoint api.debuggee kind addr size).outcome b).2
  | .removeBreakpoint kind addr size =>
    some ((removeBreakpoint api.debuggee kind addr size).outcome b).2

/-- What is reached by operations, of which `attach` may be made on an attached backend `again` or
not. -/
inductive Runs (again : Prop) (start : NativeBackend (Debuggee σ)) :
    NativeBackend (Debuggee σ) → Prop
  | start : Runs again start start
  | call (op : BackendCall) {b b' : NativeBackend (Debuggee σ)} (h : Runs again start b)
      (hattach : ∀ rounds pid, op = .attach rounds pid → again ∨ b.attached = false)
      (hop : invoke api b op = some b') : Runs again start b'

/-- A new backend. -/
def created (os : σ) : NativeBackend (Debuggee σ) :=
  { debuggee := { os := os } }

end

/-- There is no object. -/
def Vacant {σ : Type} (d : Debuggee σ) : Prop :=
  d.impl = {}

/-- What the operations of a debuggee keep: `I` always, and `Quiet` where the debuggee can be waited
for.  Where there is no object it can be attached to, and where there is one `again` says whether
it can. -/
structure Upkeep {σ : Type} (api : Api σ) (again : Prop) (I Quiet : Debuggee σ → Prop) : Prop where
  attach_again : again → ∀ pid, Triple I (api.debuggee.attach pid) (fun _ d => I d ∧ Quiet d)
    (fun _ => I)
  attach : ∀ pid, Triple (fun d => I d ∧ Vacant d) (api.debuggee.attach pid)
    (fun _ d => I d ∧ Quiet d) (fun _ d => I d ∧ Vacant d)
  detach : Triple I api.debuggee.detach (fun _ d => I d ∧ Vacant d) (fun _ d => I d ∧ Vacant d)
  waitEvent : ∀ timeout, Triple (fun d => I d ∧ Quiet d) (api.debuggee.waitEvent timeout)
    (fun _ => I) (fun _ d => I d ∧ Quiet d)
  resume : Triple I api.debuggee.resume (fun _ d => I d ∧ Quiet d) (fun _ => I)
  resumeSingleStep : Triple I api.debuggee.resumeSingleStep (fun _ d => I d ∧ Quiet d)
    (fun _ => I)
  requestStop : Maintains I api.debuggee.requestStop
  requestStop_quiet : Maintains (fun d => I d ∧ Quiet d) api.debuggee.requestStop
  readRegisters : ∀ tid, Maintains I (api.debuggee.readRegisters tid)
  writeRegisters : ∀ tid block, Maintains I (api.debuggee.writeRegisters tid block)
  readMemory : ∀ addr len, Maintains I (api.debuggee.readMemory addr len)
  writeMemory : ∀ addr data, Maintains I (api.debuggee.writeMemory addr data)
  setHwExecBp : ∀ slot addr, Maintains I (api.debuggee.setHwExecBp slot addr)
  clearHwBp : ∀ slot, Maintains I (api.debuggee.clearHwBp slot)
  maps : Maintains I (Win32.maps api)
  modules : Maintains I (Win32.modules api)
  threads : Maintains I (Win32.threads api)

section Upkeep

variable {σ α : Type} {api : Api σ} {again : Prop} {I Quiet : Debuggee σ → Prop}
  {b b' : NativeBackend (Debuggee σ)}

/-- Between the operations: a backend that is not attached has no object. -/
def Kept (I : Debuggee σ → Prop) (b : NativeBackend (Debuggee σ)) : Prop :=
  I b.debuggee ∧ (b.attached = false → Vacant b.debuggee)

/-- Within an operation there is a debuggee. -/
def Within (P : Debuggee σ → Prop) (b : NativeBackend (Debuggee σ)) : Prop :=
  b.attached = true ∧ P b.debuggee

theorem Within.kept (h : Within I b) : Kept I b :=
  ⟨h.2, fun hattached => by rw [h.1] at hattached; contradiction⟩

theorem triple_onDbg {P : Debuggee σ → Prop} {Q : α → Debuggee σ → Prop}
    {E : String → Debuggee σ → Prop} {x : Call (Debuggee σ) α} (h : Triple P x Q E) :
    Triple (Within P) (onDbg x) (fun a => Within (Q a)) (fun e => Within (E e)) := by
  intro b hb
  have hcall := h b.debuggee hb.2
  have hafter : after (onDbg x) b =
      ((after x b.debuggee).1, { b with debuggee := (after x b.debuggee).2 }) := rfl
  rw [hafter]
  rcases hx : after x b.debuggee with ⟨e | a, d⟩ <;> rw [hx] at hcall
  · exact ⟨hb.1, hcall⟩
  · exact ⟨hb.1, hcall⟩

theorem maintains_onDbg {x : Call (Debuggee σ) α} (h : Maintains I x) :
    Maintains (Within I) (onDbg x) :=
  triple_onDbg h

theorem maintains_modify {f : NativeBackend (Debuggee σ) → NativeBackend (Debuggee σ)}
    (hattached : ∀ b, (f b).attached = b.attached) (hdebuggee : ∀ b, (f b).debuggee = b.debuggee) :
    Maintains (Within I) (modify f : Call (NativeBackend (Debuggee σ)) Unit) := by
  intro b hb
  exact ⟨(hattached b).trans hb.1, (hdebuggee b).symm ▸ hb.2⟩

theorem Kept.guarded (hb : Kept I b) (op : String) {x : Call (NativeBackend (Debuggee σ)) α}
    (hx : Maintains (Within I) x) :
    Kept I ((requireAttached op >>= fun _ => x).outcome b).2 := by
  by_cases hattached : b.attached = true
  · rw [Call.outcome_bind_ok (requireAttached_outcome op hattached)]
    exact (hx.after ⟨hattached, hb.1⟩).kept
  · rw [Call.outcome_bind_error
      (requireAttached_outcome_error op (eq_false_of_ne_true hattached))]
    exact hb

namespace Upkeep

variable (h : Upkeep api again I Quiet)

include h

theorem waits (timeout : ℤ) :
    Triple (Within fun d => I d ∧ Quiet d) (onDbg (api.debuggee.waitEvent timeout))
      (fun _ => Within I) (fun _ => Within I) :=
  (triple_onDbg (h.waitEvent timeout)).weaken (fun _ hb => hb) (fun _ _ hb => hb)
    fun _ _ hb => ⟨hb.1, hb.2.1⟩

theorem stepOver (address : U64) (original : Byte) :
    Maintains I (NativeBackend.stepOver api.debuggee address original) := by
  have hprimary : Maintains I api.debuggee.primary := fun _ hd => hd
  refine hprimary.bind fun tid => (h.readRegisters tid).bind fun block => ?_
  refine (h.writeRegisters tid _).bind fun _ => (h.writeMemory address _).bind fun _ => ?_
  refine Triple.bind h.resumeSingleStep fun _ => Triple.bind ?_ fun _ => h.writeMemory address _
  exact (h.waitEvent (-1)).weaken (fun _ hd => hd) (fun _ _ hd => hd) fun _ _ hd => hd.1

theorem rearm (event : DbgEvent) :
    Maintains (Within I) (NativeBackend.rearm api.debuggee event) := by
  refine .of_after fun b hb => ?_
  show Within I (NativeBackend.rearm api.debuggee event b).2
  unfold NativeBackend.rearm
  split
  · next original hkind hsaved =>
      exact (maintains_onDbg (h.stepOver event.address original)).after hb
  · exact hb

theorem cont (hb : Kept I b) : Kept I ((NativeBackend.cont api.debuggee).outcome b).2 := by
  refine hb.guarded _ ?_
  refine Triple.bind (triple_onDbg h.resume) fun _ => Triple.bind (h.waits (-1)) fun event => ?_
  exact (h.rearm event).bind fun _ => .pure _

theorem step (hb : Kept I b) : Kept I ((NativeBackend.step api.debuggee).outcome b).2 := by
  refine hb.guarded _ ?_
  refine Triple.bind (triple_onDbg h.resumeSingleStep) fun _ => ?_
  exact Triple.bind (h.waits (-1)) fun event => Maintains.pure _

theorem setSoftware (addr : U64) :
    Maintains (Within I) (NativeBackend.setSoftware api.debuggee addr) := by
  refine (maintains_onDbg (h.readMemory addr 1)).bind fun original => ?_
  refine (maintains_modify (by intro; rfl) (by intro; rfl)).bind fun _ => ?_
  exact maintains_onDbg (h.writeMemory addr _)

theorem setHardware (addr : U64) :
    Maintains (Within I) (NativeBackend.setHardware api.debuggee addr) := by
  refine .of_after fun b hb => ?_
  show Within I (NativeBackend.setHardware api.debuggee addr b).2
  unfold NativeBackend.setHardware
  split
  · exact hb
  · refine Maintains.after ?_ hb
    refine (maintains_modify (by intro; rfl) (by intro; rfl)).bind fun _ => ?_
    refine (maintains_onDbg (h.setHwExecBp _ addr)).bind fun _ => ?_
    exact maintains_modify (by intro; rfl) (by intro; rfl)

theorem removeSoftware (addr : U64) :
    Maintains (Within I) (NativeBackend.removeSoftware api.debuggee addr) := by
  refine .of_after fun b hb => ?_
  show Within I (NativeBackend.removeSoftware api.debuggee addr b).2
  unfold NativeBackend.removeSoftware
  split
  · exact hb
  · refine Maintains.after ?_ hb
    refine (maintains_onDbg (h.writeMemory addr _)).bind fun _ => ?_
    exact maintains_modify (by intro; rfl) (by intro; rfl)

theorem removeHardware (addr : U64) :
    Maintains (Within I) (NativeBackend.removeHardware api.debuggee addr) := by
  refine .of_after fun b hb => ?_
  show Within I (NativeBackend.removeHardware api.debuggee addr b).2
  unfold NativeBackend.removeHardware
  split
  · exact hb
  · refine Maintains.after ?_ hb
    refine (maintains_onDbg (h.clearHwBp _)).bind fun _ => ?_
    exact maintains_modify (by intro; rfl) (by intro; rfl)

theorem setBreakpoint (hb : Kept I b) (kind : Backend.BpKind) (addr : U64) (size : ℤ) :
    Kept I ((NativeBackend.setBreakpoint api.debuggee kind addr size).outcome b).2 := by
  refine hb.guarded _ ?_
  cases kind with
  | softwareExec => exact h.setSoftware addr
  | hardwareExec => exact h.setHardware addr
  | writeWatch | readWatch | accessWatch => exact .throw _

theorem removeBreakpoint (hb : Kept I b) (kind : Backend.BpKind) (addr : U64) (size : ℤ) :
    Kept I ((NativeBackend.removeBreakpoint api.debuggee kind addr size).outcome b).2 := by
  refine hb.guarded _ ?_
  cases kind with
  | softwareExec => exact h.removeSoftware addr
  | hardwareExec => exact h.removeHardware addr
  | writeWatch | readWatch | accessWatch => exact .throw _

theorem threadInfo (primary : U32) (t : HostThread) :
    Maintains (Within I) (NativeBackend.threadInfo api primary t) := by
  refine .of_after fun b hb => ?_
  have hread := (maintains_onDbg (h.readRegisters t.tid)).after hb
  show Within I (NativeBackend.threadInfo api primary t b).2
  unfold NativeBackend.threadInfo
  split
  · split
    · next block b' hcall => exact (congrArg (fun out => Within I out.2) hcall).mp hread
    · next e b' hcall => exact (congrArg (fun out => Within I out.2) hcall).mp hread
  · exact hb

theorem threadInfos (hb : Kept I b) : Kept I ((NativeBackend.threads api).outcome b).2 := by
  have hprimary : Maintains I api.debuggee.primary := fun _ hd => hd
  have hinfos : ∀ primary (l : List HostThread),
      Maintains (Within I) (l.mapM (NativeBackend.threadInfo api primary)) := by
    intro primary l
    induction l with
    | nil => exact .pure _
    | cons t l ih =>
        rw [List.mapM_cons]
        exact (h.threadInfo primary t).bind fun _ => ih.bind fun _ => .pure _
  refine hb.guarded _ ?_
  refine (maintains_onDbg h.threads).bind fun l => ?_
  exact (maintains_onDbg hprimary).bind fun primary => hinfos primary l

/-- The loop of `attach` ends with no event outstanding, or with an error. -/
theorem drainEvents {r : Result Unit} {d' : Debuggee σ} : ∀ {rounds : ℕ} {d : Debuggee σ},
    I d → Quiet d → NativeBackend.drainEvents api.debuggee rounds d = some (r, d') →
      I d' ∧ (r = .ok () → Quiet d') := by
  intro rounds
  -- on the events that may still come
  induction rounds with
  | zero =>
      intro d _ _ hdrain
      cases hdrain
  | succ rounds ih =>
      intro d hd hquiet hdrain
      rw [NativeBackend.drainEvents] at hdrain
      have hwait := h.waitEvent kAttachDrainTimeoutMs d ⟨hd, hquiet⟩
      have hsame : (api.debuggee.waitEvent kAttachDrainTimeoutMs).outcome d =
        after (api.debuggee.waitEvent kAttachDrainTimeoutMs) d := rfl
      rw [hsame] at hdrain
      rcases hcall : after (api.debuggee.waitEvent kAttachDrainTimeoutMs) d with ⟨e | event, d₁⟩ <;>
        rw [hcall] at hwait hdrain
      · obtain ⟨rfl, rfl⟩ := Prod.mk.inj (Option.some.inj hdrain)
        exact ⟨hwait.1, fun _ => hwait.2⟩
      · have hresume := h.resume d₁ hwait
        have hsame : api.debuggee.resume.outcome d₁ = after api.debuggee.resume d₁ := rfl
        simp only [hsame] at hdrain
        rcases hcall₁ : after api.debuggee.resume d₁ with ⟨e | ⟨⟩, d₂⟩ <;>
          rw [hcall₁] at hresume hdrain
        · obtain ⟨rfl, rfl⟩ := Prod.mk.inj (Option.some.inj hdrain)
          exact ⟨hresume, fun hok => nomatch hok⟩
        · exact ih hresume.1 hresume.2 hdrain

theorem attachTo {rounds : ℕ} {pid : U32} {r : Result Unit} (hb : Kept I b)
    (hagain : again ∨ b.attached = false)
    (hattach : NativeBackend.attach api.debuggee rounds pid b = some (r, b')) : Kept I b' := by
  -- an attached backend may only attach where that is allowed
  have hcall : Triple (fun d => d = b.debuggee) (api.debuggee.attach pid)
      (fun _ d => I d ∧ Quiet d) (fun _ d => Kept I { b with debuggee := d }) := by
    by_cases hattached : b.attached = true
    · have hmay : again := hagain.resolve_right (ne_false_of_eq_true hattached)
      exact (h.attach_again hmay pid).weaken (fun _ hd => hd ▸ hb.1) (fun _ _ hd => hd)
        fun _ _ hd => Within.kept ⟨hattached, hd⟩
    · have hvacant := hb.2 (eq_false_of_ne_true hattached)
      exact (h.attach pid).weaken (fun _ hd => hd ▸ ⟨hb.1, hvacant⟩) (fun _ _ hd => hd)
        fun _ _ hd => ⟨hd.1, fun _ => hd.2⟩
  replace hcall := hcall b.debuggee rfl
  have hsame : (api.debuggee.attach pid).outcome b.debuggee =
    after (api.debuggee.attach pid) b.debuggee := rfl
  rw [NativeBackend.attach, hsame] at hattach
  rcases hafter : after (api.debuggee.attach pid) b.debuggee with ⟨e | ⟨⟩, d⟩ <;>
    rw [hafter] at hcall hattach
  · obtain ⟨-, rfl⟩ := Prod.mk.inj (Option.some.inj hattach)
    exact hcall
  · rcases hdrain : NativeBackend.drainEvents api.debuggee rounds d with _ | ⟨e | ⟨⟩, d₁⟩ <;>
      simp only [hdrain] at hattach
    · cases hattach
    · obtain ⟨-, rfl⟩ := Prod.mk.inj (Option.some.inj hattach)
      exact Within.kept ⟨rfl, (h.drainEvents hcall.1 hcall.2 hdrain).1⟩
    · obtain ⟨hd, hquiet⟩ := h.drainEvents hcall.1 hcall.2 hdrain
      -- the process is stopped behind the events of the attach
      have hstop : Triple (Within fun d => I d ∧ Quiet d) (do
          onDbg api.debuggee.requestStop
          let _ ← onDbg (api.debuggee.waitEvent (-1)))
          (fun _ => Within I) (fun _ => Within I) := by
        refine Triple.bind (R := fun _ => Within fun d => I d ∧ Quiet d) ?_ fun _ => ?_
        · exact (triple_onDbg h.requestStop_quiet).weaken (fun _ hb => hb) (fun _ _ hb => hb)
            fun _ _ hb => ⟨hb.1, hb.2.1⟩
        · exact Triple.bind (h.waits (-1)) fun _ => Maintains.pure _
      have hend := hstop.state_after
        (show Within (fun d => I d ∧ Quiet d) { b with attached := true, debuggee := d₁ } from
          ⟨rfl, hd, hquiet rfl⟩)
      have hlast := congrArg Prod.snd (Option.some.inj hattach)
      exact Within.kept ((congrArg (Within I) hlast).mp hend)

/-- **One operation.** -/
theorem invoke (hb : Kept I b) {op : BackendCall}
    (hagain : ∀ rounds pid, op = .attach rounds pid → again ∨ b.attached = false)
    (hop : NativeBackend.invoke api b op = some b') : Kept I b' := by
  cases op with
  | attach rounds pid =>
      obtain ⟨⟨r, b₁⟩, hattach, rfl⟩ := Option.map_eq_some_iff.mp hop
      exact h.attachTo hb (hagain rounds pid rfl) hattach
  | detach =>
      obtain rfl := Option.some.inj hop
      by_cases hattached : b.attached = true
      · have hend := h.detach.state_after hb.1
        rw [NativeBackend.detach, Call.outcome_bind_ok (requireAttached_outcome _ hattached)]
        exact ⟨hend.1, fun _ => hend.2⟩
      · rw [NativeBackend.detach, Call.outcome_bind_error
          (requireAttached_outcome_error _ (eq_false_of_ne_true hattached))]
        exact hb
  | cont => exact Option.some.inj hop ▸ h.cont hb
  | step => exact Option.some.inj hop ▸ h.step hb
  | requestStop => exact Option.some.inj hop ▸ hb.guarded _ (maintains_onDbg h.requestStop)
  | readRegisters =>
      have hprimary : Maintains I api.debuggee.primary := fun _ hd => hd
      refine Option.some.inj hop ▸ hb.guarded _ ?_
      exact (maintains_onDbg hprimary).bind fun tid => maintains_onDbg (h.readRegisters tid)
  | writeRegisters block =>
      have hprimary : Maintains I api.debuggee.primary := fun _ hd => hd
      refine Option.some.inj hop ▸ hb.guarded _ ?_
      exact (maintains_onDbg hprimary).bind fun tid => maintains_onDbg (h.writeRegisters tid block)
  | readMemory addr len =>
      exact Option.some.inj hop ▸ hb.guarded _ (maintains_onDbg (h.readMemory addr len))
  | writeMemory addr data =>
      exact Option.some.inj hop ▸ hb.guarded _ (maintains_onDbg (h.writeMemory addr data))
  | maps =>
      refine Option.some.inj hop ▸ hb.guarded _ ?_
      exact (maintains_onDbg h.maps).bind fun _ => .pure _
  | modules =>
      refine Option.some.inj hop ▸ hb.guarded _ ?_
      exact (maintains_onDbg h.modules).bind fun _ => .pure _
  | threads => exact Option.some.inj hop ▸ h.threadInfos hb
  | setBreakpoint kind addr size => exact Option.some.inj hop ▸ h.setBreakpoint hb kind addr size
  | removeBreakpoint kind addr size =>
      exact Option.some.inj hop ▸ h.removeBreakpoint hb kind addr size

end Upkeep

theorem Runs.kept {start : NativeBackend (Debuggee σ)} (h : Upkeep api again I Quiet)
    (hstart : Kept I start) (hrun : Runs api again start b) : Kept I b := by
  induction hrun with
  | start => exact hstart
  | call op _ hattach hop ih => exact h.invoke ih hattach hop

end Upkeep

/-! ## A system that answers always alike -/

/-- A process that is reported first, and then a thread of it that stops at a breakpoint, again and
again.  The state is whether the process was reported. -/
def answering : Api Bool where
  getLastError := pure 121
  debugActiveProcess _ := pure true
  debugActiveProcessStop _ := pure true
  debugSetProcessKillOnExit _ := pure ()
  openProcess _ _ := pure 0x10
  openThread _ _ := pure 0x20
  closeHandle _ := pure ()
  waitForDebugEvent timeout := fun reported =>
    (if !reported then some { processId := 7, threadId := 9, info := .createProcess 0x40 }
      else if timeout = BitVec.allOnes 32 then
        some { processId := 7, threadId := 9, info := .exception exceptionBreakpoint 0x1000 }
      else none, true)
  continueDebugEvent _ _ _ := pure true
  debugBreakProcess _ := pure true
  getThreadContext _ _ := pure (some {})
  setThreadContext _ _ _ := pure true
  readProcessMemory _ _ len := pure (some (List.replicate len.toNat 0x90))
  writeProcessMemory _ _ data := pure (some data.length)
  flushInstructionCache _ _ _ := pure true
  virtualQueryEx _ _ := pure none
  enumProcessModulesEx _ _ := pure (some ([], 0))
  getModuleInformation _ _ := pure none
  getModuleFileNameEx _ _ := pure []
  createToolhelp32Snapshot := pure (0x30, [⟨9, 7⟩])

section Resources

variable {σ : Type} (api : Api σ)

end Resources

section Pump

variable {σ : Type} (api : Api σ)

end Pump

end NativeBackend

end Irida
