import Irida.Host.Enumeration
import Irida.Lib.Monitors
import Mathlib.Data.Multiset.AddSub

/-!
# A log of the calls on the operating system

`Api.logged` is the operating system with a log of the calls that have to be in some order.  Two
monitors read it.

* `resources` has the handles that are open, those of the images that came with events among them,
  and the processes that are debugged.  It forbids to close a handle that is not open and to stop
  debugging a process that is not debugged.
* `pump` has the debug event that was taken and not continued yet.  It forbids to wait for the next
  one before, and to continue another one, or with another status than that of the event.

What a function does to a monitor is a triple over `Inv`, for whatever the operating system
answers.
-/

namespace Irida.Host.Win32

open Triples

/-- A call of the operating system with its answer, as far as it is needed. -/
inductive Note
  | opened (handle : Handle)
  | openedThread (threadId : U32) (handle : Handle)
  | closed (handle : Handle)
  | debugged (pid : U32)
  | stopped (pid : U32) (ok : Bool)
  | waited (event : Option DebugEvent)
  | continued (processId threadId : U32) (status : ContinueStatus) (ok : Bool)
  | contextSet (thread : Handle) (ctx : Context)
  deriving DecidableEq

/-- A handle was opened, unless it is the one that stands for a failure. -/
def openedNote (failure : Handle) (note : Handle → Note) (h : Handle) : List Note :=
  if h = failure then [] else [note h]

/-- The operating system with a log. -/
def Api.logged {σ : Type} (api : Api σ) : Api (Logged Note σ) where
  getLastError := Logged.silently api.getLastError
  debugActiveProcess pid :=
    Logged.noting (fun ok => if ok then [.debugged pid] else []) (api.debugActiveProcess pid)
  debugActiveProcessStop pid :=
    Logged.noting (fun ok => [.stopped pid ok]) (api.debugActiveProcessStop pid)
  debugSetProcessKillOnExit kill := Logged.silently (api.debugSetProcessKillOnExit kill)
  openProcess access pid := Logged.noting (openedNote nullptr .opened) (api.openProcess access pid)
  openThread access tid :=
    Logged.noting (openedNote nullptr (.openedThread tid)) (api.openThread access tid)
  closeHandle h := Logged.noting (fun _ => [.closed h]) (api.closeHandle h)
  waitForDebugEvent timeout :=
    Logged.noting (fun event => [.waited event]) (api.waitForDebugEvent timeout)
  continueDebugEvent pid tid status :=
    Logged.noting (fun ok => [.continued pid tid status ok])
      (api.continueDebugEvent pid tid status)
  debugBreakProcess process := Logged.silently (api.debugBreakProcess process)
  getThreadContext thread flags := Logged.silently (api.getThreadContext thread flags)
  setThreadContext thread flags ctx :=
    Logged.noting (fun ok => if ok ∧ flags = .full then [.contextSet thread ctx] else [])
      (api.setThreadContext thread flags ctx)
  readProcessMemory process addr len := Logged.silently (api.readProcessMemory process addr len)
  writeProcessMemory process addr data :=
    Logged.silently (api.writeProcessMemory process addr data)
  flushInstructionCache process addr len :=
    Logged.silently (api.flushInstructionCache process addr len)
  virtualQueryEx process addr := Logged.silently (api.virtualQueryEx process addr)
  enumProcessModulesEx process cb := Logged.silently (api.enumProcessModulesEx process cb)
  getModuleInformation process h := Logged.silently (api.getModuleInformation process h)
  getModuleFileNameEx process h := Logged.silently (api.getModuleFileNameEx process h)
  createToolhelp32Snapshot :=
    Logged.noting (fun answer => openedNote invalidHandleValue .opened answer.1)
      api.createToolhelp32Snapshot

/-! ## The monitors -/

/-- The handles that an event hands over to the debugger. -/
def DebugEvent.files (de : DebugEvent) : Multiset Handle :=
  match de.info with
  | .createProcess file | .loadDll file _ => if file = nullptr then 0 else {file}
  | _ => 0

/-- What the debugger holds of the operating system. -/
structure Resources where
  handles : Multiset Handle := 0
  /-- all that came with events -/
  files : Multiset Handle := 0
  debugged : Multiset U32 := 0
  deriving DecidableEq

/-- The event that is outstanding, and whether its thread was given a context with the trap flag
since it was taken; and the threads that handles are open of. -/
structure Outstanding where
  event : Option DebugEvent := none
  trapped : Bool := false
  threads : List (Handle × U32) := []
  deriving DecidableEq

namespace Outstanding

/-- The status suits the event: it is that of the event, or the thread executes one instruction
only. -/
def Suits (o : Outstanding) (ev : DebugEvent) (status : ContinueStatus) : Prop :=
  status = continueStatus ev ∨ o.trapped = true ∧ status = .continue

instance (o : Outstanding) (ev : DebugEvent) (status : ContinueStatus) :
    Decidable (o.Suits ev status) :=
  inferInstanceAs (Decidable (_ ∨ _))

/-- A handle of the thread of the event that is outstanding. -/
def IsOfEvent (o : Outstanding) (thread : Handle) : Prop :=
  ∃ ev ∈ o.event, o.threads.lookup thread = some ev.threadId

instance (o : Outstanding) (thread : Handle) : Decidable (o.IsOfEvent thread) := by
  unfold IsOfEvent
  cases o.event with
  | none => exact isFalse (by simp)
  | some ev => exact decidable_of_iff (o.threads.lookup thread = some ev.threadId) (by simp)

end Outstanding

/-- The monitor of debug events.  A process that the debugger lets go of takes its event with it;
one that it could not let go of keeps it. -/
def pump : Monitor Note Outstanding where
  start := {}
  next o
    | .openedThread tid h => some { o with threads := (h, tid) :: o.threads }
    | .closed h => some { o with threads := o.threads.filter fun t => t.1 ≠ h }
    | .waited event =>
      if o.event = none then some { o with event := event, trapped := false } else none
    | .continued pid tid status ok =>
      match o.event with
      | none => none
      | some ev =>
        if pid = ev.processId ∧ tid = ev.threadId ∧ o.Suits ev status then
          some (if ok then { o with event := none, trapped := false } else o)
        else none
    | .contextSet thread ctx =>
      if o.IsOfEvent thread then some { o with trapped := ctx.eFlags &&& kEflagsTrapFlag ≠ 0 }
      else some o
    | .stopped _ ok => some (if ok then { o with event := none, trapped := false } else o)
    | _ => some o

/-! ## Triples over a monitor -/

section Inv

variable {σ α ς : Type} {m : Monitor Note ς}

/-- The log follows the monitor, and its state and the object are as `J` says. -/
def Inv (m : Monitor Note ς) (J : ς → Impl → Prop) (d : Debuggee (Logged Note σ)) : Prop :=
  ∃ r, m.state d.os.notes = some r ∧ J r d.impl

variable {J : ς → Impl → Prop} {J' : α → ς → Impl → Prop}
  {E : String → Debuggee (Logged Note σ) → Prop}

theorem Inv.mono {J' : ς → Impl → Prop} {d : Debuggee (Logged Note σ)} (h : Inv m J d)
    (hmono : ∀ r i, J r i → J' r i) : Inv m J' d := by
  obtain ⟨r, hread, hJ⟩ := h
  exact ⟨r, hread, hmono r _ hJ⟩

end Inv

/-! ## The object -/

section Object

variable {σ α : Type} {i : Impl} {E : String → Debuggee σ → Prop}

end Object

/-! ## Functions that keep what a monitor says -/

section Keep

variable {σ α ς : Type} {m : Monitor Note ς} {J : ς → Impl → Prop} {api : Api σ}

end Keep

end Irida.Host.Win32
