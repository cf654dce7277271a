import Irida.Host.Context
import Irida.Host.DebugRegisters
import Irida.Lib.Triples

/-!
# The debuggee over the debug functions of Windows

`native_debuggee.cpp`: each operation of the native debuggee as the calls that it makes, in their
order, with what it does if one of them fails.  The functions of the operating system are the
parameter `Api`, over a state of which nothing is assumed.

The object behind `dbg_` is `Debuggee.impl`.  An object that is not there is one with the initial
values (`Impl`): there is nothing to do to destroy it.
-/

namespace Irida.Host.Win32

open Triples (total)

/-- `HANDLE` and `HMODULE`. -/
abbrev Handle := U64

/-- `nullptr`. -/
def nullptr : Handle := 0

/-- `INVALID_HANDLE_VALUE`. -/
def invalidHandleValue : Handle := BitVec.allOnes 64

/-- What a `DEBUG_EVENT` is about: as far as it is read, and with the `hFile` of an image, which is
open and the debugger's to close. -/
inductive DebugInfo
  | exception (code : U32) (address : U64)
  | createProcess (file : Handle)
  | exitProcess (exitCode : U32)
  | loadDll (file : Handle) (baseOfDll : U64)
  | other
  deriving DecidableEq, Repr

/-- `DEBUG_EVENT`. -/
structure DebugEvent where
  processId : U32 := 0
  threadId : U32 := 0
  info : DebugInfo := .other
  deriving DecidableEq, Repr

/-- `EXCEPTION_BREAKPOINT`. -/
def exceptionBreakpoint : U32 := 0x80000003

/-- `EXCEPTION_SINGLE_STEP`. -/
def exceptionSingleStep : U32 := 0x80000004

/-- `DBG_CONTINUE` and `DBG_EXCEPTION_NOT_HANDLED`. -/
inductive ContinueStatus
  | continue
  | exceptionNotHandled
  deriving DecidableEq, Repr

/-- The `ContextFlags` in use: `CONTEXT_DEBUG_REGISTERS`, and `CONTEXT_FULL` with these. -/
inductive ContextFlags
  | debugRegisters
  | full
  deriving DecidableEq, Repr

/-- The rights of `OpenProcess`: `VM_READ`, `VM_WRITE`, `VM_OPERATION`, `QUERY_INFORMATION` and
`CREATE_THREAD`. -/
def processAccess : U32 := 0x10 ||| 0x20 ||| 0x8 ||| 0x400 ||| 0x2

/-- `THREAD_GET_CONTEXT`. -/
def threadGetContext : U32 := 0x8

/-- `THREAD_SET_CONTEXT`. -/
def threadSetContext : U32 := 0x10

/-- `MEMORY_BASIC_INFORMATION`. -/
structure MemoryBasicInformation where
  baseAddress : U64
  regionSize : U64
  state : U32
  protect : U32
  deriving DecidableEq, Repr

/-- `MODULEINFO`. -/
structure ModuleInfo where
  baseOfDll : U64
  sizeOfImage : U32
  deriving DecidableEq, Repr

/-- `THREADENTRY32`. -/
structure ThreadEntry where
  threadId : U32
  ownerProcessId : U32
  deriving DecidableEq, Repr

/-- The functions of the operating system, over its state. -/
structure Api (σ : Type) where
  getLastError : StateM σ U32
  debugActiveProcess : U32 → StateM σ Bool
  debugActiveProcessStop : U32 → StateM σ Bool
  debugSetProcessKillOnExit : Bool → StateM σ Unit
  openProcess : U32 → U32 → StateM σ Handle
  openThread : U32 → U32 → StateM σ Handle
  closeHandle : Handle → StateM σ Unit
  /-- none if no event arrives in time -/
  waitForDebugEvent : U32 → StateM σ (Option DebugEvent)
  continueDebugEvent : U32 → U32 → ContinueStatus → StateM σ Bool
  debugBreakProcess : Handle → StateM σ Bool
  getThreadContext : Handle → ContextFlags → StateM σ (Option Context)
  setThreadContext : Handle → ContextFlags → Context → StateM σ Bool
  /-- the bytes that were copied, which may be too few -/
  readProcessMemory : Handle → U64 → U64 → StateM σ (Option Bytes)
  /-- the number of bytes that were copied -/
  writeProcessMemory : Handle → U64 → Bytes → StateM σ (Option ℕ)
  flushInstructionCache : Handle → U64 → ℕ → StateM σ Bool
  virtualQueryEx : Handle → U64 → StateM σ (Option MemoryBasicInformation)
  /-- what was written to a buffer of that many bytes, and how many bytes are needed -/
  enumProcessModulesEx : Handle → ℕ → StateM σ (Option (List Handle × U32))
  getModuleInformation : Handle → Handle → StateM σ (Option ModuleInfo)
  getModuleFileNameEx : Handle → Handle → StateM σ Bytes
  /-- the snapshot, with the entries that `Thread32First` and `Thread32Next` give -/
  createToolhelp32Snapshot : StateM σ (Handle × List ThreadEntry)

/-- `NativeDebuggee::Impl`. -/
structure Impl where
  pid : U32 := 0
  process : Handle := nullptr
  attached : Bool := false
  hasPending : Bool := false
  pending : DebugEvent := {}
  primaryTid : U32 := 0
  deriving DecidableEq, Repr

/-- A debuggee and the operating system. -/
structure Debuggee (σ : Type) where
  os : σ
  impl : Impl := {}
  deriving DecidableEq

variable {σ α : Type}

/-- A call of the operating system. -/
def os (x : StateM σ α) : Call (Debuggee σ) α :=
  total fun d => ((x d.os).1, { d with os := (x d.os).2 })

/-- A change of the object. -/
def change (f : Impl → Impl) : Call (Debuggee σ) Unit :=
  total fun d => ((), { d with impl := f d.impl })

/-- The object. -/
def impl : Call (Debuggee σ) Impl :=
  total fun d => (d.impl, d)

@[simp] theorem outcome_os (x : StateM σ α) (d : Debuggee σ) :
    (os x).outcome d = (.ok (x d.os).1, { d with os := (x d.os).2 }) :=
  rfl

@[simp] theorem outcome_impl (d : Debuggee σ) :
    (impl : Call (Debuggee σ) Impl).outcome d = (.ok d.impl, d) :=
  rfl

/-- `context.Dr0` to `context.Dr7`. -/
def debugRegisters (ctx : Context) : DebugRegisters :=
  { dr0 := ctx.dr0, dr1 := ctx.dr1, dr2 := ctx.dr2, dr3 := ctx.dr3, dr6 := ctx.dr6, dr7 := ctx.dr7 }

/-- The context with other debug registers. -/
def withDebugRegisters (ctx : Context) (r : DebugRegisters) : Context :=
  { ctx with dr0 := r.dr0, dr1 := r.dr1, dr2 := r.dr2, dr3 := r.dr3, dr6 := r.dr6, dr7 := r.dr7 }

/-- `kEflagsTrapFlag`. -/
def kEflagsTrapFlag : U32 := 0x100

/-- The context of a thread that executes one instruction. -/
def setTrapFlag (ctx : Context) : Context :=
  { ctx with eFlags := ctx.eFlags ||| kEflagsTrapFlag }

/-- The event as `wait_event` reports it. -/
def translate (de : DebugEvent) : DbgEvent :=
  match de.info with
  | .exception code address =>
    { threadId := de.threadId
      code := code
      address := address
      kind :=
        if code = exceptionBreakpoint then .breakpoint
        else if code = exceptionSingleStep then .singleStep
        else .exception }
  | .exitProcess exitCode => { threadId := de.threadId, kind := .exitProcess, code := exitCode }
  | .loadDll _ baseOfDll => { threadId := de.threadId, kind := .loadModule, address := baseOfDll }
  | .createProcess _ | .other => { threadId := de.threadId, kind := .other }

/-- The status with which `resume` goes on: an exception that is not the debugger's own is left to
the process. -/
def continueStatus (de : DebugEvent) : ContinueStatus :=
  match de.info with
  | .exception code _ =>
    if code ≠ exceptionBreakpoint ∧ code ≠ exceptionSingleStep then .exceptionNotHandled
    else .continue
  | _ => .continue

section

variable (api : Api σ)

/-- An error with the text of `format_last_error`. -/
def failLast (what : String) : Call (Debuggee σ) α := do
  let err ← os api.getLastError
  throw (what ++ " failed (GetLastError=" ++ toString err.toNat ++ ")")

/-- `NativeDebuggee::attach`, with the object that it returns. -/
def attach (pid : U32) : Call (Debuggee σ) Impl := do
  let debugged ← os (api.debugActiveProcess pid)
  if debugged = false then failLast api "DebugActiveProcess"
  else
    os (api.debugSetProcessKillOnExit false)
    let process ← os (api.openProcess processAccess pid)
    if process = nullptr then
      -- the error is that of the last call, which is not `OpenProcess`
      let _ ← os (api.debugActiveProcessStop pid)
      failLast api "OpenProcess"
    else return { pid := pid, process := process, attached := true }

/-- `detach`. -/
def detach : Call (Debuggee σ) Unit := do
  let self ← impl
  if self.attached = false then throw "detach: not attached"
  else
    let stopped ← os (api.debugActiveProcessStop self.pid)
    if stopped = false then failLast api "DebugActiveProcessStop"
    else change fun self => { self with attached := false }

/-- `~NativeDebuggee`: what is still attached is detached, with or without success. -/
def destroyDebuggee : StateM (Debuggee σ) Unit := fun d =>
  ((), if d.impl.attached then ((detach api).outcome d).2 else d)

/-- `~Impl`. -/
def destroyImpl : Call (Debuggee σ) Unit := do
  let self ← impl
  if self.process ≠ nullptr then
    os (api.closeHandle self.process)
    change fun self => { self with process := nullptr }

/-- The object is destroyed, and `next` is in its place. -/
def replace (next : Impl) : Call (Debuggee σ) Unit := do
  total (destroyDebuggee api)
  destroyImpl api
  change fun _ => next

/-- `wait_event`. -/
def waitEvent (timeoutMs : ℤ) : Call (Debuggee σ) DbgEvent := do
  let self ← impl
  if self.attached = false then throw "wait_event: not attached"
  else
    match ← os (api.waitForDebugEvent (BitVec.ofInt 32 timeoutMs)) with
    | none => failLast api "WaitForDebugEvent"
    | some de =>
      change fun self => { self with hasPending := true, pending := de, primaryTid := de.threadId }
      return translate de

/-- The end of `resume` and of `resume_single_step`. -/
def continuePending (status : DebugEvent → ContinueStatus) : Call (Debuggee σ) Unit := do
  let self ← impl
  let continued ← os (api.continueDebugEvent self.pending.processId self.pending.threadId
    (status self.pending))
  if continued = false then failLast api "ContinueDebugEvent"
  else change fun self => { self with hasPending := false }

/-- `resume`. -/
def resume : Call (Debuggee σ) Unit := do
  let self ← impl
  if self.hasPending = false then throw "resume: no pending debug event"
  else continuePending api continueStatus

/-- The common part of the functions that change the context of a thread. -/
def editThread (tid : U32) (flags : ContextFlags) (edit : Context → Context) :
    Call (Debuggee σ) Unit := do
  let thread ← os (api.openThread (threadGetContext ||| threadSetContext) tid)
  if thread = nullptr then failLast api "OpenThread"
  else
    match ← os (api.getThreadContext thread flags) with
    | none =>
      -- the error is read only after the handle was closed
      os (api.closeHandle thread)
      failLast api "GetThreadContext"
    | some ctx =>
      let set ← os (api.setThreadContext thread flags (edit ctx))
      os (api.closeHandle thread)
      if set = false then failLast api "SetThreadContext"
      else return ()

/-- `resume_single_step`. -/
def resumeSingleStep : Call (Debuggee σ) Unit := do
  let self ← impl
  if self.hasPending = false then throw "resume_single_step: no pending debug event"
  else
    editThread api self.pending.threadId .full setTrapFlag
    continuePending api fun _ => .continue

/-- `request_stop`. -/
def requestStop : Call (Debuggee σ) Unit := do
  let self ← impl
  if self.attached = false then throw "request_stop: not attached"
  else
    let broken ← os (api.debugBreakProcess self.process)
    if broken = false then failLast api "DebugBreakProcess"
    else return ()

/-- `read_registers`. -/
def readRegisters (threadId : U32) : Call (Debuggee σ) Bytes := do
  let thread ← os (api.openThread threadGetContext threadId)
  if thread = nullptr then failLast api "OpenThread"
  else
    let ctx ← os (api.getThreadContext thread .full)
    os (api.closeHandle thread)
    match ctx with
    | none => failLast api "GetThreadContext"
    | some ctx => return contextToBlock ctx

/-- `write_registers`. -/
def writeRegisters (threadId : U32) (block : Bytes) : Call (Debuggee σ) Unit :=
  if block.length < kRegBlockSize then throw "write_registers: block too small"
  else editThread api threadId .full (blockToContext block)

/-- `read_memory`. -/
def readMemory (addr len : U64) : Call (Debuggee σ) Bytes := do
  let self ← impl
  if self.attached = false then throw "read_memory: not attached"
  else
    match ← os (api.readProcessMemory self.process addr len) with
    | none => failLast api "ReadProcessMemory"
    | some buf => if buf.length ≠ len.toNat then throw "read_memory: partial read" else return buf

/-- `write_memory`. -/
def writeMemory (addr : U64) (data : Bytes) : Call (Debuggee σ) Unit := do
  let self ← impl
  if self.attached = false then throw "write_memory: not attached"
  else
    match ← os (api.writeProcessMemory self.process addr data) with
    | none => failLast api "WriteProcessMemory"
    | some bytesWritten =>
      if bytesWritten ≠ data.length then throw "write_memory: partial write"
      else
        let flushed ← os (api.flushInstructionCache self.process addr data.length)
        if flushed = false then failLast api "FlushInstructionCache"
        else return ()

/-- `set_hw_exec_bp`. -/
def setHwExecBp (slot : ℤ) (addr : U64) : Call (Debuggee σ) Unit := do
  let self ← impl
  if slot < 0 ∨ slot > 3 then throw "set_hw_exec_bp: slot out of range (0-3)"
  else if self.attached = false then throw "set_hw_exec_bp: not attached"
  else
    editThread api self.primaryTid .debugRegisters fun ctx =>
      withDebugRegisters ctx ((debugRegisters ctx).arm slot addr)

/-- `clear_hw_bp`. -/
def clearHwBp (slot : ℤ) : Call (Debuggee σ) Unit := do
  let self ← impl
  if slot < 0 ∨ slot > 3 then throw "clear_hw_bp: slot out of range (0-3)"
  else if self.attached = false then throw "clear_hw_bp: not attached"
  else
    editThread api self.primaryTid .debugRegisters fun ctx =>
      withDebugRegisters ctx ((debugRegisters ctx).disarm slot)

/-- The debuggee as the native backend holds it in `dbg_`: a successful `attach` replaces the object
by a new one, and behind a `detach` there is none. -/
def Api.debuggee : NativeDebuggee (Debuggee σ) where
  attach pid := do
    let attached ← attach api pid
    replace api attached
  detach d :=
    (((detach api).outcome d).1, ((replace api {}).outcome ((detach api).outcome d).2).2)
  waitEvent := waitEvent api
  resume := resume api
  resumeSingleStep := resumeSingleStep api
  requestStop := requestStop api
  readRegisters := readRegisters api
  writeRegisters := writeRegisters api
  readMemory := readMemory api
  writeMemory := writeMemory api
  setHwExecBp := setHwExecBp api
  clearHwBp := clearHwBp api
  primaryThread d := d.impl.primaryTid

end

end Irida.Host.Win32
