import Irida.Gui.StaticViews

/-!
# The session on a process

`capi_target.cpp` answers for a process.  It reads memory through the cache of the target, and it
parses the file of the main module when it is first asked for something that the file says, or for
the name of an address.  What a query finds in the cache, or finds parsed, depends on the queries
before it, so that here a query also returns the session that it leaves.

Some entries are not wired yet: breaking, restarting, stopping and the breakpoints do nothing, and
stepping over and out is a plain step.
-/

namespace Irida

/-- A call of the backend that the target passes on. -/
def Target.ask {β ρ : Type*} (call : β → ρ × β) (t : Target β) : ρ × Target β :=
  ((call t.backend).1, { t with backend := (call t.backend).2 })

namespace Gui

open Analysis Api Binfmt Disasm

/-- `Backend`, with the lists that the target passes on. -/
structure CoreBackend (β : Type*) extends Backend β where
  maps : β → Result (List MemMapRow) × β
  modules : β → Result (List ModuleRow) × β
  threads : β → Result (List ThreadRow) × β

/-- `kStringsScanCap`. -/
def kStringsScanCap : U64 := 1024 * 1024

/-- `IridaCoreCtx`, less the storage of its rows. -/
structure CoreSession (β : Type*) where
  target : Target β
  mainBin : FileInfo := {}
  binaryParsed : Bool := false
  symbolMap : Std.ExtTreeMap U64 String := ∅
  analysis : AnalysisResult := {}

/-- What the panels ask a session. -/
inductive Query
  | registers
  | modules
  | maps
  | threads
  | disasm (addr count : U64)
  | pc
  | stateEpoch
  | readMemory (addr len : U64)
  | breakpoints
  | backtrace
  | sections
  | imports
  | getExports
  | symbols
  | strings
  | functions
  | functionBlocks (fnAddr : U64)
  | xrefsTo (addr : U64)

/-- What it answers. -/
inductive Answer
  | done
  | registers (rows : List RegisterRow)
  | modules (rows : List ModuleRow)
  | maps (rows : List MemMapRow)
  | threads (rows : List ThreadRow)
  | disasm (rows : List InsnRow)
  | number (n : U64)
  | bytes (bytes : Bytes)
  | breakpoints (rows : List BreakpointRow)
  | backtrace (rows : List IridaFrame)
  | sections (rows : List SectionRow)
  | imports (rows : List ImportRow)
  | getExports (rows : List ExportRow)
  | symbols (rows : List SymbolRow)
  | strings (rows : List StringRow)
  | functions (rows : List FunctionRow)
  | blocks (rows : List BlockRow)
  | xrefs (rows : List XrefRow)

namespace CoreSession

variable {β : Type*} (ops : CoreBackend β) (parseFile : String → Result FileInfo)

/-! ## The main module -/

/-- `ensure_binary_parsed`.  Once there was an attempt to parse it decides by what is there, and
there may be nothing although the attempt was successful. -/
def ensureBinaryParsed (s : CoreSession β) : Bool × CoreSession β :=
  if s.binaryParsed then
    (decide (0 < s.mainBin.sections.length + s.mainBin.imports.length +
      s.mainBin.exports.length + s.mainBin.symbols.length), s)
  else
    let asked := s.target.ask ops.modules
    let s := { s with target := asked.2, binaryParsed := true }
    match asked.1 with
    | .error _ | .ok [] => (false, s)
    | .ok (first :: _) =>
      match parseFile first.name with
      | .error _ => (false, s)
      | .ok bin =>
        (true, { s with
          mainBin := bin
          symbolMap := buildSymbolMap bin.program first.base bin.imageBase })

/-- `resolve_symbol`. -/
def resolveSymbol (addr : U64) (s : CoreSession β) : Option String × CoreSession β :=
  let (parsed, s) := s.ensureBinaryParsed ops parseFile
  (if parsed then s.symbolMap[addr]? else none, s)

/-- What `core_sections`, `core_imports`, `core_exports` and `core_symbols` have in common. -/
def fileRows {ρ : Type*} (rows : FileInfo → List ρ) (s : CoreSession β) : List ρ × CoreSession β :=
  let (parsed, s) := s.ensureBinaryParsed ops parseFile
  (if parsed then rows s.mainBin else [], s)

/-! ## Memory -/

/-- What `core_modules`, `core_maps` and `core_threads` have in common. -/
def listRows {ρ : Type*} (call : β → Result (List ρ) × β) (s : CoreSession β) :
    List ρ × CoreSession β :=
  let (r, target) := s.target.ask call
  let s := { s with target := target }
  match r with
  | .error _ => ([], s)
  | .ok rows => (rows, s)

/-- `core_read_memory`, into a buffer. -/
def coreReadMemory (addr len : U64) (s : CoreSession β) : Bytes × CoreSession β :=
  match s.target.readMemory ops.toBackend addr len with
  | (.error _, target) => ([], { s with target := target })
  | (.ok bytes, target) => (bytes.take len.toNat, { s with target := target })

/-- The loop of `core_disasm` over the instructions. -/
def insnRows (bytes : Bytes) (addr : U64) :
    List Instruction → CoreSession β → List InsnRow × CoreSession β
  | [], s => ([], s)
  | insn :: insns, s =>
    let (annot, s) :=
      match operandTarget insn with
      | none => (none, s)
      | some tgt => s.resolveSymbol ops parseFile tgt
    let (rows, s) := insnRows bytes addr insns s
    ({ insnRow (fun _ => none) bytes addr insn with annot := annot } :: rows, s)

/-- `core_disasm`. -/
def coreDisasm (disasm : Disassembler) (addr count : U64) (s : CoreSession β) :
    List InsnRow × CoreSession β :=
  if count = 0 then ([], s)
  else
    match s.target.readMemory ops.toBackend addr (count * kMaxInsnBytes) with
    | (.error _, target) => ([], { s with target := target })
    | (.ok bytes, target) =>
      insnRows ops parseFile bytes addr (disasm.decodeLinear count.toNat bytes addr)
        { s with target := target }

/-- `core_backtrace`. -/
def coreBacktrace (s : CoreSession β) : List IridaFrame × CoreSession β :=
  let (rows, target) := Api.coreBacktrace ops.toBackend s.target
  (rows, { s with target := target })

/-- `core_strings`: `scan_strings` with its default `min_len`. -/
def coreStrings (s : CoreSession β) : List StringRow × CoreSession β :=
  let (modules, target) := s.target.ask ops.modules
  let s := { s with target := target }
  match modules with
  | .error _ | .ok [] => ([], s)
  | .ok (mod :: _) =>
    let len := if mod.size < kStringsScanCap then mod.size else kStringsScanCap
    if len = 0 then ([], s)
    else
      match s.target.readMemory ops.toBackend mod.base len with
      | (.error _, target) => ([], { s with target := target })
      | (.ok bytes, target) =>
        ((scanStrings bytes mod.base 4).map fun f => ⟨f.addr, f.text⟩, { s with target := target })

/-! ## The analysis -/

/-- The reads that `run_analysis` makes of a target. -/
def reader (t : Target β) : ByteReader where
  read addr n := (analysisReader ops.toBackend addr n t).1
  length_le addr n := by
    unfold analysisReader
    split
    · exact Nat.zero_le n
    · exact List.length_take_le n _

/-- The target after the analysis has read some windows. -/
def readWindows (windows : List U64) (t : Target β) : Target β :=
  windows.foldl (fun t addr => (analysisReader ops.toBackend addr kReadWindow t).2) t

/-- How an analysis goes: the decoder, the order of the keys of the symbol map, the fuel, and the
windows that it reads of a target. -/
structure Setup (β : Type*) where
  disasm : Disassembler
  iteration : Iteration
  fuel : ℕ
  windows : Target β → List U64

/-- `run_analysis`. -/
def runAnalysis (how : Setup β) (s : CoreSession β) : Option (CoreSession β) :=
  let pc := (s.target.state.registers.get "rip").getD 0
  let (parsed, s) := s.ensureBinaryParsed ops parseFile
  let entries := pc :: if parsed then how.iteration.keys s.symbolMap else []
  let names := fun addr => (s.resolveSymbol ops parseFile addr).1
  match analyze how.disasm (reader ops s.target) (some names) how.fuel entries with
  | none => none
  | some result =>
    some { s with
      target := readWindows ops (how.windows s.target) s.target
      analysis := result }

/-! ## The calls -/

/-- The queries of `kCoreVTable`. -/
def query (disasm : Disassembler) : Query → CoreSession β → Answer × CoreSession β
  | .registers, s => (.registers (coreRegisters s.target), s)
  | .modules, s => (s.listRows ops.modules).map .modules id
  | .maps, s => (s.listRows ops.maps).map .maps id
  | .threads, s => (s.listRows ops.threads).map .threads id
  | .disasm addr count, s => (s.coreDisasm ops parseFile disasm addr count).map .disasm id
  | .pc, s => (.number ((s.target.state.registers.get "rip").getD 0), s)
  | .stateEpoch, s => (.number s.target.epoch, s)
  | .readMemory addr len, s => (s.coreReadMemory ops addr len).map .bytes id
  -- nothing is ever added to the list
  | .breakpoints, s => (.breakpoints [], s)
  | .backtrace, s => (s.coreBacktrace ops).map .backtrace id
  | .sections, s => (s.fileRows ops parseFile sectionRows).map .sections id
  | .imports, s => (s.fileRows ops parseFile importRows).map .imports id
  | .getExports, s => (s.fileRows ops parseFile exportRows).map .getExports id
  | .symbols, s => (s.fileRows ops parseFile symbolRows).map .symbols id
  | .strings, s => (s.coreStrings ops).map .strings id
  | .functions, s => (.functions (functions s.analysis), s)
  | .functionBlocks fnAddr, s => (.blocks (functionBlocks s.analysis fnAddr), s)
  | .xrefsTo addr, s => (.xrefs (xrefRows s.analysis addr), s)

/-- The other entries of `kCoreVTable`. -/
def act (how : Setup β) : SessionCall → CoreSession β → Option (CoreSession β)
  | .control .stepInto, s | .control .stepOver, s | .control .stepOut, s =>
    some { s with target := (s.target.step ops.toBackend).2 }
  | .control .cont, s => some { s with target := (s.target.cont ops.toBackend).2 }
  | .control .brk, s | .control .restart, s | .control .stop, s => some s
  | .bpToggle _, s | .bpSetEnabled _ _, s => some s
  | .analyze, s => s.runAnalysis ops parseFile how

/-- The session behind a call.  An analysis that has too little fuel is not yet back. -/
def acted (how : Setup β) (call : SessionCall) (s : CoreSession β) : CoreSession β :=
  (s.act ops parseFile how call).getD s

/-! ## The members that the symbols come from -/

/-- The members that `ensure_binary_parsed` sets. -/
def ctx (s : CoreSession β) : CoreCtx where
  mainBin := s.mainBin.program
  binaryParsed := s.binaryParsed
  symbolMap := s.symbolMap

/-- On these members the session does what `CoreCtx` does. -/
theorem ctx_ensureBinaryParsed (s : CoreSession β) :
    Api.ensureBinaryParsed (fun name => (parseFile name).map FileInfo.program)
        ((ops.modules s.target.backend).1.map (List.map fun m => ⟨m.base, m.name⟩)) s.ctx =
      ((s.ensureBinaryParsed ops parseFile).1, (s.ensureBinaryParsed ops parseFile).2.ctx) := by
  unfold Api.ensureBinaryParsed CoreSession.ensureBinaryParsed
  by_cases hparsed : s.binaryParsed = true
  · have hctx : s.ctx.binaryParsed = true := hparsed
    rw [if_pos hparsed, if_pos hctx]
    simp [ctx, FileInfo.program]
  · have hctx : ¬ s.ctx.binaryParsed = true := hparsed
    rw [if_neg hparsed, if_neg hctx]
    dsimp only [Target.ask]
    rcases (ops.modules s.target.backend).1 with e | (_ | ⟨first, rest⟩)
    · rfl
    · rfl
    · show (match (parseFile first.name).map FileInfo.program with
        | .error _ => _
        | .ok bin => _) = _
      cases hfile : parseFile first.name with
      | error e => simp only [hfile]; rfl
      | ok bin => simp only [hfile]; rfl

end CoreSession

end Gui

end Irida
