import Irida.Binfmt.LiefParser
import Irida.Gui.GraphBlocks
import Irida.Gui.MainWindow

/-!
# The session on a file

`capi_static.cpp` answers for a file that `irida_session_create_file` has loaded.  Nothing but
`irida_analyze` changes such a session, and what it changes are the functions and the references.
What belongs to a process is empty: registers, threads, the map of the memory, breakpoints and
frames.
-/

namespace Irida.Gui

open Analysis Api Binfmt Disasm

/-! ## Rows -/

/-- The rows of the sections. -/
def sectionRows (info : FileInfo) : List SectionRow :=
  info.sections.map fun sec =>
    { name := sec.name, vaddr := sec.vaddr, vsize := sec.vsize, perms := sec.perms }

/-- The rows of the imports. -/
def importRows (info : FileInfo) : List ImportRow :=
  info.imports.map fun imp => { name := imp.name, library := imp.library, addr := imp.iatAddr }

/-- The rows of the exports. -/
def exportRows (info : FileInfo) : List ExportRow :=
  info.exports.map fun exp => { name := exp.name, addr := exp.addr, ordinal := exp.ordinal }

/-- The rows of the symbols. -/
def symbolRows (info : FileInfo) : List SymbolRow :=
  info.symbols.map fun sym => { name := sym.name, addr := sym.addr, kind := sym.kind }

/-- The number of a kind, as in `IridaXrefKind`. -/
def kindNumber : XrefKind → ℤ
  | .call => 0
  | .jump => 1
  | .data => 2

/-- The rows of the references to an address. -/
def xrefRows (result : AnalysisResult) (addr : U64) : List XrefRow :=
  (result.xrefs.filter fun x => x.target = addr).map fun x =>
    { site := x.site, target := x.target, kind := kindNumber x.kind }

/-! ## The session -/

/-- `IridaStaticCtx`, with the file that it was parsed from. -/
structure FileSession where
  ctx : LoadedCtx
  info : FileInfo
  bin_eq : ctx.bin = info.program
  analysis : AnalysisResult := {}

/-- What `load` takes over from the parser. -/
theorem bin_of_load {file : FileBytes} {bin : ProgramInfo} {ctx : LoadedCtx}
    (h : load file (.ok bin) = some ctx) : ctx.bin = bin := by
  unfold load at h
  split at h
  · cases h
  · split at h
    · cases h
    · obtain rfl := Option.some.inj h
      rfl

/-- `irida_session_create_file`, with what the file holds and what LIEF finds in it. -/
def createFile (path : String) (file : FileBytes) (outcome : LiefOutcome) : Option FileSession :=
  match parseFile path outcome with
  | .error _ => none
  | .ok info =>
    match h : load file (.ok info.program) with
    | none => none
    | some ctx => some { ctx := ctx, info := info, bin_eq := bin_of_load h }

namespace FileSession

variable (s : FileSession)

/-- `static_modules`: the file itself, based at its image base. -/
def staticModules : List ModuleRow :=
  let span := s.info.sections.foldl (fun span sec =>
    if sec.vaddr + sec.vsize > span then sec.vaddr + sec.vsize else span) 0
  let size := if span > s.info.imageBase then span - s.info.imageBase else span
  [{ name := s.info.path, base := s.info.imageBase, size := size }]

/-- `static_sections`. -/
def staticSections : List SectionRow :=
  sectionRows s.info

/-- `static_imports`. -/
def staticImports : List ImportRow :=
  importRows s.info

/-- `static_exports`. -/
def staticExports : List ExportRow :=
  exportRows s.info

/-- `static_symbols`. -/
def staticSymbols : List SymbolRow :=
  symbolRows s.info

/-- `static_xrefs_to`. -/
def staticXrefsTo (addr : U64) : List XrefRow :=
  xrefRows s.analysis addr

/-- `static_analyze`, where the result of the analysis is given. -/
def staticAnalyze (analyzed : LoadedCtx → AnalysisResult) : FileSession :=
  { s with analysis := analyzed s.ctx }

end FileSession

/-- `kStaticVTable`.  The analysis is given as a function of what was loaded. -/
def staticVTable (disasm : Disassembler) (analyzed : LoadedCtx → AnalysisResult) :
    ViewVTable FileSession where
  registers := some fun _ => []
  modules := some FileSession.staticModules
  maps := some fun _ => []
  threads := some fun _ => []
  disasm := some fun s addr count => s.ctx.staticDisasm disasm addr count
  pc := some fun s => s.info.entryPoint
  stateEpoch := some fun _ => 1
  stepInto := some id
  stepOver := some id
  stepOut := some id
  cont := some id
  brk := some id
  restart := some id
  stop := some id
  breakpoints := some fun _ => []
  bpToggle := some fun _ s => s
  bpSetEnabled := some fun _ _ s => s
  backtrace := some fun _ => []
  sections := some FileSession.staticSections
  imports := some FileSession.staticImports
  getExports := some FileSession.staticExports
  symbols := some FileSession.staticSymbols
  strings := some fun s => s.ctx.static.staticStrings
  analyze := some fun s => s.staticAnalyze analyzed
  functions := some fun s => functions s.analysis
  xrefsTo := some FileSession.staticXrefsTo

/-- The rows of the file and of its analysis can be counted by an `int`. -/
structure Countable (analyzed : LoadedCtx → AnalysisResult) (s : FileSession) : Prop where
  sections : s.info.sections.length < 2 ^ 31
  imports : s.info.imports.length < 2 ^ 31
  exports : s.info.exports.length < 2 ^ 31
  symbols : s.info.symbols.length < 2 ^ 31
  strings : s.ctx.static.staticStrings.length < 2 ^ 31
  functions : (analyzed s.ctx).functions.length < 2 ^ 31
  xrefs : (analyzed s.ctx).xrefs.length < 2 ^ 31

/-! ## The rows can be counted -/

theorem length_decodeLinear_le (disasm : Disassembler) (max : ℕ) (bytes : Bytes) (address : U64) :
    (disasm.decodeLinear max bytes address).length ≤ max := by
  induction max generalizing bytes address with
  | zero => exact Nat.le_refl 0
  | succ max ih =>
      rw [Disassembler.decodeLinear_succ]
      split
      · exact Nat.zero_le _
      · split
        · exact Nat.zero_le _
        · exact Nat.succ_le_succ (ih _ _)

section Fits

variable {disasm : Disassembler} {analyzed : LoadedCtx → AnalysisResult} {s : FileSession}

/-- A session on the file has as many rows as the file and its analysis have entries. -/
theorem fits_of_countable (hs : Countable analyzed s) (result : AnalysisResult)
    (hfunctions : result.functions.length < 2 ^ 31) (hxrefs : result.xrefs.length < 2 ^ 31)
    (x : View) :
    x.Fits (staticVTable disasm analyzed) (some { s with analysis := result }) := by
  cases x with
  | disassembly =>
      intro addr
      have hrows : (s.ctx.staticDisasm disasm addr DisassemblyPanel.rowLimit).length ≤ 256 := by
        rw [LoadedCtx.staticDisasm_eq, List.length_map]
        exact length_decodeLinear_le disasm 256 _ addr
      exact Nat.lt_of_le_of_lt hrows (by decide)
  | panel p =>
      intro target
      rw [length_panelRows]
      cases p with
      | modules => exact (by decide : 1 < 2 ^ 31)
      | breakpoints => exact (by decide : 0 < 2 ^ 31)
      | threads => exact (by decide : 0 < 2 ^ 31)
      | memoryMap => exact (by decide : 0 < 2 ^ 31)
      | backtrace => exact (by decide : 0 < 2 ^ 31)
      | sections => exact (List.length_map _).trans_lt hs.sections
      | imports => exact (List.length_map _).trans_lt hs.imports
      | exports => exact (List.length_map _).trans_lt hs.exports
      | symbols => exact (List.length_map _).trans_lt hs.symbols
      | strings => exact hs.strings
      | functions => exact (List.length_map _).trans_lt hfunctions
      | xrefs =>
          refine (List.length_map _).trans_lt ?_
          exact (List.length_filter_le _ _).trans_lt hxrefs

end Fits

end Irida.Gui
