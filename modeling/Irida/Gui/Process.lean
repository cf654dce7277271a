import Irida.Gui.LiveViews

/-!
# A process without a debugger

A debugger is to show a process as it is.  `Process` is a process by itself: its memory, its
registers and its lists, and what becomes of it when it is run.  `GuestSession` is what a session on
it is meant to be.  It answers each query from the process, with no cache, no file that is parsed on
demand and no target.

A run call can fail although the process has run.  The sessions of `capi_target.cpp` then go on with
the registers and the pages of the last stop, so that until the next one they are no picture of the
process any more (`GuestSession.fresh`).  What is still promised is what they do not take from there
(`GuestSession.promises`).
-/

namespace Irida.Gui

open Analysis Api Binfmt Disasm Target

/-! ## Processes -/

/-- What becomes of a process that is to run. -/
inductive Ran (γ : Type*)
  /-- it has run, the call that ran it has reported a stop, and the registers were read -/
  | stopped (g : γ)
  /-- the call fails, and it has not run -/
  | refused
  /-- the call fails, or the registers cannot be read, but it has run -/
  | failed (g : γ)
  | gone

/-- The process afterwards. -/
def Ran.next {γ : Type*} (g : γ) : Ran γ → Option γ
  | .stopped g' | .failed g' => some g'
  | .refused => some g
  | .gone => none

/-- A process: what can be seen of it, and how it runs. -/
structure Process (γ : Type*) where
  mem : γ → U64 → Byte
  mapped : γ → U64 → Bool
  registers : γ → RegisterSet
  modules : γ → Option (List ModuleRow)
  maps : γ → Option (List MemMapRow)
  threads : γ → Option (List ThreadRow)
  cont : γ → Ran γ
  step : γ → Ran γ

namespace Process

variable {γ : Type*} (p : Process γ) (parseFile : String → Result FileInfo) (g : γ)

/-- The bytes of a range that is mapped as a whole. -/
@[irreducible] def read (addr : U64) (n : ℕ) : Option Bytes :=
  if AllMapped (p.mapped g) addr n then some (guestBytes (p.mem g) addr n) else none

variable {g} in
theorem length_of_read {addr : U64} {n : ℕ} {bytes : Bytes} (h : p.read g addr n = some bytes) :
    bytes.length = n := by
  rw [read] at h
  split at h
  · obtain rfl := Option.some.inj h
    exact length_guestBytes _ _ _
  · cases h

/-- The module that is listed first. -/
def main : Option ModuleRow :=
  (p.modules g).bind List.head?

/-- The file of the main module, if it can be parsed. -/
def mainFile : Option FileInfo :=
  (p.main g).bind fun first => (parseFile first.name).toOption

/-- The names of the addresses. -/
def symbolMap : Std.ExtTreeMap U64 String :=
  match p.main g, p.mainFile parseFile g with
  | some first, some bin => buildSymbolMap bin.program first.base bin.imageBase
  | _, _ => ∅

/-- Running the process leaves the main module what it is. -/
structure KeepsMain : Prop where
  cont : ∀ g g', (p.cont g).next g = some g' → p.main g' = p.main g
  step : ∀ g g', (p.step g).next g = some g' → p.main g' = p.main g

end Process

/-! ## The session that only looks -/

/-- A session on a process: the process, the number of stops, whether it is still as at the last
stop, and the analysis, if it was made of the process as it was then. -/
structure GuestSession (γ : Type*) where
  guest : γ
  epoch : U64 := 1
  fresh : Bool := true
  analysis : Option AnalysisResult := some {}

namespace GuestSession

variable {γ : Type*} (p : Process γ) (parseFile : String → Result FileInfo) (s : GuestSession γ)

/-- The frame that is entered from the one at `fp`. -/
def caller (fp : U64) : Option IridaFrame :=
  (p.read s.guest fp 16).bind fun frameMem =>
    let savedRbp := loadU64 frameMem
    let retAddr := loadU64 (frameMem.drop 8)
    if savedRbp ≤ fp ∨ retAddr = 0 then none else some ⟨retAddr, savedRbp⟩

/-- The frames along the chain. -/
def frames : ℕ → U64 → List IridaFrame
  | 0, _ => []
  | n + 1, fp =>
    match s.caller p fp with
    | none => []
    | some frame => frame :: frames n frame.framePtr

/-- The frames, from that of the program counter on. -/
def backtrace : List IridaFrame :=
  let pc := ((p.registers s.guest).get "rip").getD 0
  let fp := ((p.registers s.guest).get "rbp").getD 0
  ⟨pc, fp⟩ :: s.frames p kMaxBacktraceFrames fp

/-- The instructions in memory. -/
def insns (disasm : Disassembler) (addr count : U64) : List InsnRow :=
  if count = 0 then []
  else
    match p.read s.guest addr (count * kMaxInsnBytes).toNat with
    | none => []
    | some bytes =>
      (disasm.decodeLinear count.toNat bytes addr).map
        (insnRow (fun a => (p.symbolMap parseFile s.guest)[a]?) bytes addr)

/-- The strings of the main module, up to the limit. -/
def strings : List StringRow :=
  match p.main s.guest with
  | none => []
  | some mod =>
    let len := if mod.size < kStringsScanCap then mod.size else kStringsScanCap
    match p.read s.guest mod.base len.toNat with
    | none => []
    | some bytes => (scanStrings bytes mod.base 4).map fun f => ⟨f.addr, f.text⟩

/-- What the file says. -/
def fileRows {ρ : Type*} (rows : FileInfo → List ρ) : List ρ :=
  ((p.mainFile parseFile s.guest).map rows).getD []

/-- The analysis that is known. -/
def known : AnalysisResult :=
  s.analysis.getD {}

/-- What is to be answered to a query. -/
def answer (disasm : Disassembler) : Query → Answer
  | .registers =>
    .registers ((p.registers s.guest).regs.map fun reg => { name := reg.1, value := reg.2 })
  | .modules => .modules ((p.modules s.guest).getD [])
  | .maps => .maps ((p.maps s.guest).getD [])
  | .threads => .threads ((p.threads s.guest).getD [])
  | .disasm addr count => .disasm (s.insns p parseFile disasm addr count)
  | .pc => .number (((p.registers s.guest).get "rip").getD 0)
  | .stateEpoch => .number s.epoch
  | .readMemory addr len => .bytes ((p.read s.guest addr len.toNat).getD [])
  | .breakpoints => .breakpoints []
  | .backtrace => .backtrace (s.backtrace p)
  | .sections => .sections (s.fileRows p parseFile sectionRows)
  | .imports => .imports (s.fileRows p parseFile importRows)
  | .getExports => .getExports (s.fileRows p parseFile exportRows)
  | .symbols => .symbols (s.fileRows p parseFile symbolRows)
  | .strings => .strings (s.strings p)
  | .functions => .functions (functions s.known)
  | .functionBlocks fnAddr => .blocks (functionBlocks s.known fnAddr)
  | .xrefsTo addr => .xrefs (xrefRows s.known addr)

/-- Whether the answer is promised. -/
def promises : Query → Bool
  -- from the registers or the pages of the last stop
  | .registers | .pc | .disasm _ _ | .readMemory _ _ | .backtrace | .strings => s.fresh
  | .functions | .functionBlocks _ | .xrefsTo _ => s.analysis.isSome
  | .modules | .maps | .threads | .stateEpoch | .breakpoints | .sections | .imports | .getExports
  | .symbols => true

/-- The analysis of the memory. -/
def analyzed (disasm : Disassembler) (it : Iteration) (fuel : ℕ) : Option AnalysisResult :=
  let names := p.symbolMap parseFile s.guest
  Analysis.analyze disasm (liveReader (p.mem s.guest) (p.mapped s.guest)) (some fun a => names[a]?)
    fuel (((p.registers s.guest).get "rip").getD 0 :: it.keys names)

/-- The session after a run of the process, unless it is gone. -/
def afterRun : Ran γ → Option (GuestSession γ)
  | .stopped g => some { s with guest := g, epoch := s.epoch + 1, fresh := true }
  | .refused => some s
  | .failed g => some { s with guest := g, fresh := false }
  | .gone => none

/-- What a call does, unless the process is gone. -/
def act (disasm : Disassembler) (it : Iteration) (fuel : ℕ) :
    SessionCall → Option (GuestSession γ)
  | .control .stepInto | .control .stepOver | .control .stepOut => s.afterRun (p.step s.guest)
  | .control .cont => s.afterRun (p.cont s.guest)
  | .control .brk | .control .restart | .control .stop => some s
  | .bpToggle _ | .bpSetEnabled _ _ => some s
  -- of pages of several stops nothing is known
  | .analyze =>
    some { s with analysis := if s.fresh then s.analyzed p parseFile disasm it fuel else none }

end GuestSession

end Irida.Gui
