import Irida.Host.SystemCalls

/-!
# Handles and debugged processes

The debuggee closes every handle that it opens but that of its process, and nothing twice; and of
the processes that it has begun to debug it stops debugging all but its own, and no other.  Both
hold for whatever the operating system answers, in the middle of each function as well.

The handles that it does not open itself stay open: the files of the images, which the system hands
over with an event.
-/

namespace Irida.Host.Win32

open Triples

/-- The handle that an object has. -/
def Impl.handles (i : Impl) : Multiset Handle :=
  if i.process = nullptr then 0 else {i.process}

/-- The process that an object debugs. -/
def Impl.debugs (i : Impl) : Multiset U32 :=
  if i.attached = true then {i.pid} else 0

/-- To stop debugging a process never fails. -/
def Stops {σ : Type} (api : Api σ) : Prop :=
  ∀ pid s, (api.debugActiveProcessStop pid s).1 = true

/-- The debugger has what the object has and all the files that came with events, and besides some
handles and processes.  A process that could not be let go of is still debugged. -/
structure Owns {σ : Type} (api : Api σ) (handles : Multiset Handle) (pids : Multiset U32)
    (r : Resources) (i : Impl) : Prop where
  handles : r.handles = i.handles + handles + r.files
  held : i.debugs + pids ≤ r.debugged
  debugged : Stops api → r.debugged = i.debugs + pids

section

variable {σ α : Type} {api : Api σ} {J : Resources → Impl → Prop}
  {E : String → Debuggee (Logged Note σ) → Prop} {hs : Multiset Handle} {ps : Multiset U32}

theorem Owns.congr {r : Resources} {i i' : Impl} (h : Owns api hs ps r i) (hpid : i'.pid = i.pid)
    (hprocess : i'.process = i.process) (hattached : i'.attached = i.attached) :
    Owns api hs ps r i' := by
  have hhandles : i'.handles = i.handles := by rw [Impl.handles, hprocess, Impl.handles]
  have hdebugs : i'.debugs = i.debugs := by rw [Impl.debugs, hattached, hpid, Impl.debugs]
  exact ⟨hhandles ▸ h.handles, hdebugs ▸ h.held, hdebugs ▸ h.debugged⟩

end

end Irida.Host.Win32
