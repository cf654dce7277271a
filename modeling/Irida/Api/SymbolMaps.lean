import Irida.Api.Seeds
import Irida.Lib.Overwrite

/-!
# The two symbol maps

`build_symbol_map` of a live session and the loops in `load` of a static session enter the same
three tables, the first one at addresses that are moved to where the module was loaded.  Moving
addresses is injective, also where it wraps around, so both maps answer by the same names.
-/

namespace Irida.Api

open Binfmt Overwrite Target

/-- The name that a binary gives an address: that of an import, else of an export, else of a
symbol, and among those the last in the file. -/
def nameAt (bin : ProgramInfo) (addr : U64) : Option String :=
  ((lastUnder (fun imp : Import => imp.iatAddr) addr bin.imports).map
      fun imp => "sym.imp." ++ imp.name).or
    (((lastUnder (fun exp : Export => exp.addr) addr bin.exports).map
        fun exp => "sym." ++ exp.name).or
      ((lastUnder (fun sym : Symbol => sym.addr) addr bin.symbols).map fun sym => sym.name))

/-- The three loops that build a symbol map, with the addresses moved by `rebase`. -/
def mapOf (bin : ProgramInfo) (rebase : U64 → U64) : Std.ExtTreeMap U64 String :=
  enter (fun imp : Import => rebase imp.iatAddr) (fun imp => "sym.imp." ++ imp.name)
    (enter (fun exp : Export => rebase exp.addr) (fun exp => "sym." ++ exp.name)
      (enter (fun sym : Symbol => rebase sym.addr) (fun sym => sym.name) ∅ bin.symbols)
      bin.exports)
    bin.imports

theorem buildSymbolMap_eq_mapOf (bin : ProgramInfo) (moduleBase fileBase : U64) :
    buildSymbolMap bin moduleBase fileBase =
      mapOf bin fun addr => moduleBase + (addr - fileBase) :=
  rfl

theorem symbolMap_eq_mapOf {file : FileBytes} {bin : ProgramInfo} {ctx : LoadedCtx}
    (h : load file (.ok bin) = some ctx) : ctx.symbolMap = mapOf bin id := by
  unfold load at h
  split at h
  · cases h
  · split at h
    · cases h
    · cases h
      rfl

/-- Wherever the addresses are moved, the map answers by the name in the file. -/
theorem getElem?_mapOf (bin : ProgramInfo) {rebase : U64 → U64}
    (hrebase : Function.Injective rebase) (addr : U64) :
    (mapOf bin rebase)[rebase addr]? = nameAt bin addr := by
  have himp := lastUnder_rekey (fun imp : Import => imp.iatAddr) addr hrebase bin.imports
  have hexp := lastUnder_rekey (fun exp : Export => exp.addr) addr hrebase bin.exports
  have hsym := lastUnder_rekey (fun sym : Symbol => sym.addr) addr hrebase bin.symbols
  unfold mapOf nameAt
  rw [getElem?_enter, getElem?_enter, getElem?_enter, himp, hexp, hsym]
  simp

theorem rebase_injective (moduleBase fileBase : U64) :
    Function.Injective fun addr : U64 => moduleBase + (addr - fileBase) := by
  intro addr addr' h
  exact sub_left_inj.mp (add_left_cancel h)

/-- **The two maps agree.**  What the live map says where a file address was loaded is what the
static map says at the file address. -/
theorem symbolMaps_agree (bin : ProgramInfo) (moduleBase addr : U64) {file : FileBytes}
    {ctx : LoadedCtx} (hload : load file (.ok bin) = some ctx) :
    (buildSymbolMap bin moduleBase bin.imageBase)[moduleBase + (addr - bin.imageBase)]? =
        ctx.symbolMap[addr]? ∧
      ctx.symbolMap[addr]? = nameAt bin addr := by
  have hstatic : ctx.symbolMap[addr]? = nameAt bin addr := by
    rw [symbolMap_eq_mapOf hload]
    exact getElem?_mapOf bin Function.injective_id addr
  have hlive : (buildSymbolMap bin moduleBase bin.imageBase)[moduleBase + (addr - bin.imageBase)]? =
      nameAt bin addr := by
    rw [buildSymbolMap_eq_mapOf]
    exact getElem?_mapOf bin (rebase_injective moduleBase bin.imageBase) addr
  exact ⟨hlive.trans hstatic.symm, hstatic⟩

/-- A binary with two imports, an export and a symbol at one address below its image base. -/
def sharedSlot : ProgramInfo :=
  ⟨⟨0x2000, []⟩, 0, [⟨"a", 0x1000⟩, ⟨"b", 0x1000⟩], [⟨"e", 0x1000⟩], [⟨"s", 0x1000⟩]⟩

/-- The last import wins, where the module wraps around as well. -/
theorem symbolMaps_agree_sharedSlot :
    (buildSymbolMap sharedSlot 0x400 sharedSlot.imageBase)[(0xfffffffffffff400 : U64)]? =
      some "sym.imp.b" := by
  have hload : load (some ⟨[0], by decide⟩) (.ok sharedSlot) = some _ := rfl
  have h := symbolMaps_agree sharedSlot 0x400 0x1000 hload
  exact h.1.trans (h.2.trans (by decide))

/-- A session that has parsed its binary resolves by it wherever the module lies. -/
theorem CoreCtx.LoadedAt.getElem?_symbolMap {c : CoreCtx} {base : U64} (h : c.LoadedAt base)
    (addr : U64) :
    c.symbolMap[base + (addr - c.mainBin.imageBase)]? = nameAt c.mainBin addr := by
  rw [h.map_eq, buildSymbolMap_eq_mapOf]
  exact getElem?_mapOf c.mainBin (rebase_injective base c.mainBin.imageBase) addr

end Irida.Api
