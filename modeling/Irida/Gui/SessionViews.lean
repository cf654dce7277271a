import Irida.Api.Backtrace
import Irida.Api.BackendVTable
import Irida.Gui.GraphView

/-!
# What the panels read of a session

The rows of `irida.h` and the entries of the vtable that give them.  The panels reach an entry
through a function of `capi.cpp`, which answers with no rows if there is no session, or if the
backend does not have the entry.
-/

namespace Irida.Gui

open Api

/-- `IridaModule`. -/
structure ModuleRow where
  name : String
  base : U64
  size : U64
  deriving DecidableEq, Repr

/-- `IridaMemMap`. -/
structure MemMapRow where
  start : U64
  «end» : U64
  perms : Byte
  name : String
  deriving DecidableEq, Repr

/-- `IridaThread`. -/
structure ThreadRow where
  tid : U32
  pc : U64
  current : Bool
  deriving DecidableEq, Repr

/-- `IridaBpType`. -/
inductive BpType
  | software
  | hardware
  deriving DecidableEq, Repr

/-- `IridaBreakpoint`. -/
structure BreakpointRow where
  address : U64
  enabled : Bool
  type : BpType
  deriving DecidableEq, Repr

/-- `IridaSection`. -/
structure SectionRow where
  name : String
  vaddr : U64
  vsize : U64
  perms : Byte
  deriving DecidableEq, Repr

/-- `IridaImport`. -/
structure ImportRow where
  name : String
  library : String
  addr : U64
  deriving DecidableEq, Repr

/-- `IridaExport`. -/
structure ExportRow where
  name : String
  addr : U64
  ordinal : U32
  deriving DecidableEq, Repr

/-- `IridaSymbol`. -/
structure SymbolRow where
  name : String
  addr : U64
  kind : String
  deriving DecidableEq, Repr

/-- `IridaXref`: `from` and `to`, and the kind as the number that it is. -/
structure XrefRow where
  site : U64
  target : U64
  kind : ℤ
  deriving DecidableEq, Repr

/-- The entries of `IridaBackendVTable` that the panels reach besides those of `BackendVTable`. -/
structure ViewVTable (σ : Type*) extends BackendVTable σ where
  modules : Option (σ → List ModuleRow) := none
  maps : Option (σ → List MemMapRow) := none
  threads : Option (σ → List ThreadRow) := none
  disasm : Option (σ → U64 → U64 → List InsnRow) := none
  pc : Option (σ → U64) := none
  breakpoints : Option (σ → List BreakpointRow) := none
  backtrace : Option (σ → List IridaFrame) := none
  sections : Option (σ → List SectionRow) := none
  imports : Option (σ → List ImportRow) := none
  getExports : Option (σ → List ExportRow) := none
  symbols : Option (σ → List SymbolRow) := none
  strings : Option (σ → List StringRow) := none
  functions : Option (σ → List FunctionRow) := none
  xrefsTo : Option (σ → U64 → List XrefRow) := none

section Queries

variable {σ ρ : Type*}

/-- A query of `capi.cpp`, on a session or the null pointer. -/
def query (entry : Option (σ → List ρ)) (s : Option σ) : List ρ :=
  match s, entry with
  | some s, some f => f s
  | _, _ => []

variable (vt : ViewVTable σ) (s : Option σ)

/-- `irida_modules`. -/
def iridaModules : List ModuleRow :=
  query vt.modules s

/-- `irida_maps`. -/
def iridaMaps : List MemMapRow :=
  query vt.maps s

/-- `irida_threads`. -/
def iridaThreads : List ThreadRow :=
  query vt.threads s

/-- `irida_disasm`. -/
def iridaDisasm (addr count : U64) : List InsnRow :=
  query (vt.disasm.map fun f s => f s addr count) s

/-- `irida_pc`. -/
def iridaPc : U64 :=
  match s, vt.pc with
  | some s, some f => f s
  | _, _ => 0

/-- `irida_breakpoints`. -/
def iridaBreakpoints : List BreakpointRow :=
  query vt.breakpoints s

/-- `irida_backtrace`. -/
def iridaBacktrace : List IridaFrame :=
  query vt.backtrace s

/-- `irida_sections`. -/
def iridaSections : List SectionRow :=
  query vt.sections s

/-- `irida_imports`. -/
def iridaImports : List ImportRow :=
  query vt.imports s

/-- `irida_exports`. -/
def iridaExports : List ExportRow :=
  query vt.getExports s

/-- `irida_symbols`. -/
def iridaSymbols : List SymbolRow :=
  query vt.symbols s

/-- `irida_strings`. -/
def iridaStrings : List StringRow :=
  query vt.strings s

/-- `irida_functions`. -/
def iridaFunctions : List FunctionRow :=
  query vt.functions s

/-- `irida_xrefs_to`. -/
def iridaXrefsTo (addr : U64) : List XrefRow :=
  query (vt.xrefsTo.map fun f s => f s addr) s

end Queries

end Irida.Gui
