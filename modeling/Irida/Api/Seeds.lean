import Irida.Analysis.Retracing
import Irida.Analysis.Soundness
import Irida.Api.LiveSession
import Irida.Api.StaticSession

/-!
# Where an analysis starts

`build_symbol_map` and `run_analysis` of `capi_target.cpp`, `load` and `analyze` of
`capi_static.cpp`.

Both sessions start the analysis at the entry point, or at the program counter, and at every key of
the symbol map.  The map names code, the symbols and the exports, and it names data, the slots of
the import address table.  `codeOnly_iff` says that every function is called from the code exactly
if every slot is.
-/

namespace Irida.Api

open Binfmt Disasm Analysis Target

/-! ## The symbol map -/

/-- `build_symbol_map`: on a collision, imports win over exports, and those over symbols. -/
def buildSymbolMap (bin : ProgramInfo) (moduleBase fileBase : U64) : Std.ExtTreeMap U64 String :=
  let rebase (fileAddr : U64) := moduleBase + (fileAddr - fileBase)
  let map := bin.symbols.foldl (fun map sym => map.insert (rebase sym.addr) sym.name) ∅
  let map :=
    bin.exports.foldl (fun map exp => map.insert (rebase exp.addr) ("sym." ++ exp.name)) map
  bin.imports.foldl (fun map imp => map.insert (rebase imp.iatAddr) ("sym.imp." ++ imp.name)) map

/-- The order in which a loop goes through an `unordered_map`. -/
structure Iteration where
  keys : Std.ExtTreeMap U64 String → List U64
  perm : ∀ map, (keys map).Perm map.keys

/-- The addresses of the symbols and of the exports. -/
def codeAddrs (bin : ProgramInfo) (rebase : U64 → U64) : List U64 :=
  bin.symbols.map (fun sym => rebase sym.addr) ++ bin.exports.map fun exp => rebase exp.addr

/-- The addresses of the slots of the import address table. -/
def importSlots (bin : ProgramInfo) (rebase : U64 → U64) : List U64 :=
  bin.imports.map fun imp => rebase imp.iatAddr

/-! ## The static session -/

/-- The members of `IridaStaticCtx` after `load`. -/
structure LoadedCtx where
  bin : ProgramInfo
  image : Bytes
  length_lt : image.length < 2 ^ 64
  symbolMap : Std.ExtTreeMap U64 String

/-- The bytes of a file, none if it cannot be opened or read. -/
abbrev FileBytes := Option { image : Bytes // image.length < 2 ^ 64 }

/-- `IridaStaticCtx::load`, with what the file and its parser give. -/
def load (file : FileBytes) (parsed : Result ProgramInfo) : Option LoadedCtx :=
  match file with
  | none => none
  | some ⟨image, length_lt⟩ =>
    if image = [] then none
    else
      match parsed with
      | .error _ => none
      | .ok bin =>
        let map := bin.symbols.foldl (fun map sym => map.insert sym.addr sym.name) ∅
        let map := bin.exports.foldl (fun map exp => map.insert exp.addr ("sym." ++ exp.name)) map
        let map :=
          bin.imports.foldl (fun map imp => map.insert imp.iatAddr ("sym.imp." ++ imp.name)) map
        some { bin := bin, image := image, length_lt := length_lt, symbolMap := map }

theorem copySource_le {image : Bytes} {vaddr fileOff : U64} {n copied : ℕ}
    {sections : List Section} (h : copySource image vaddr n sections = some (fileOff, copied)) :
    copied ≤ n := by
  rw [copySource_eq] at h
  obtain ⟨sec, -, h⟩ := Option.bind_eq_some_iff.mp h
  rw [copySource] at h
  split at h
  · cases h
  · dsimp only at h
    split at h
    · cases h
    · split at h
      · cases h
      · rw [← (Prod.mk.inj (Option.some.inj h)).2]
        omega

/-- The `ByteReader` of `analyze`. -/
def StaticCtx.reader (ctx : StaticCtx) : ByteReader where
  read := ctx.readAt
  length_le addr n := by
    unfold StaticCtx.readAt
    split
    · exact Nat.zero_le n
    · next hsource => exact (List.length_take_le _ _).trans (copySource_le hsource)

namespace LoadedCtx

variable (ctx : LoadedCtx)

/-- What `read_at` looks at. -/
def static : StaticCtx :=
  ⟨ctx.bin.toBinaryInfo, ctx.image, ctx.length_lt⟩

/-- `resolve_symbol`. -/
def resolveSymbol (addr : U64) : Option String :=
  ctx.symbolMap[addr]?

/-- The entry points of `analyze`. -/
def entries (it : Iteration) : List U64 :=
  (if ctx.bin.entryPoint ≠ 0 then [ctx.bin.entryPoint] else []) ++ it.keys ctx.symbolMap

/-- `IridaStaticCtx::analyze`. -/
def analyze (disasm : Disassembler) (it : Iteration) (fuel : ℕ) : Option AnalysisResult :=
  Analysis.analyze disasm ctx.static.reader (some ctx.resolveSymbol) fuel (ctx.entries it)

end LoadedCtx

/-! ## The live session -/

/-- The members of `irida::backend::Module` that are read. -/
structure Module where
  base : U64
  name : String
  deriving DecidableEq, Repr

/-- The members of `IridaCoreCtx` that `ensure_binary_parsed` sets. -/
structure CoreCtx where
  mainBin : ProgramInfo := ⟨⟨0, []⟩, 0, [], [], []⟩
  binaryParsed : Bool := false
  symbolMap : Std.ExtTreeMap U64 String := ∅

section Live

variable (parseFile : String → Result ProgramInfo) (modules : Result (List Module))

/-- `ensure_binary_parsed`. -/
def ensureBinaryParsed (c : CoreCtx) : Bool × CoreCtx :=
  if c.binaryParsed then
    (decide (0 < c.mainBin.sections.length + c.mainBin.imports.length + c.mainBin.exports.length +
      c.mainBin.symbols.length), c)
  else
    let c := { c with binaryParsed := true }
    match modules with
    | .error _ | .ok [] => (false, c)
    | .ok (first :: _) =>
      match parseFile first.name with
      | .error _ => (false, c)
      | .ok bin =>
        (true, { c with
          mainBin := bin
          symbolMap := buildSymbolMap bin first.base bin.imageBase })

/-- `resolve_symbol`. -/
def resolveSymbol (addr : U64) (c : CoreCtx) : Option String × CoreCtx :=
  let (parsed, c) := ensureBinaryParsed parseFile modules c
  (if parsed then c.symbolMap[addr]? else none, c)

/-- `run_analysis`, where the reader stands for the reads of guest memory. -/
def runAnalysis (disasm : Disassembler) (reader : ByteReader) (it : Iteration) (fuel : ℕ)
    (registers : RegisterSet) (c : CoreCtx) : Option AnalysisResult × CoreCtx :=
  let (parsed, c) := ensureBinaryParsed parseFile modules c
  let entries :=
    (registers.get "rip").getD 0 :: if parsed then it.keys c.symbolMap else []
  (analyze disasm reader (some fun addr => (resolveSymbol parseFile modules addr c).1) fuel entries,
    c)

/-- The states that calls of `ensure_binary_parsed` lead to. -/
inductive CoreCtx.Reached (parseFile : String → Result ProgramInfo) : CoreCtx → Prop
  | start : Reached parseFile {}
  | ensure {c : CoreCtx} (modules : Result (List Module)) : Reached parseFile c →
      Reached parseFile (ensureBinaryParsed parseFile modules c).2

end Live

/-- The reads of guest memory at a stop: a window that is mapped, or nothing. -/
def liveReader (mem : U64 → Byte) (mapped : U64 → Bool) : ByteReader where
  read addr n := if AllMapped mapped addr n then guestBytes mem addr n else []
  length_le addr n := by
    split
    · exact (length_guestBytes mem addr n).le
    · exact Nat.zero_le n

/-- At a stop the windows that `run_analysis` reads are those of a fixed reader. -/
theorem analysisReader_eq_liveReader {β : Type*} {ops : Backend β} {Live : β → Prop}
    {mem : U64 → Byte} {mapped : U64 → Bool} {t : Target β} (hserves : Serves ops Live mem mapped)
    (hstop : AtStop ops Live t) (addr : U64) :
    (analysisReader ops addr kReadWindow t).1 = (liveReader mem mapped).read addr kReadWindow := by
  rcases analysisReader_cases hserves hstop addr (show kReadWindow < 2 ^ 64 by decide) with
    ⟨hall, hread⟩ | ⟨hnot, hread⟩
  · simp only [hread, liveReader, if_pos hall]
  · simp only [hread, liveReader, if_neg hnot]

/-! ## What the keys are -/

theorem mem_foldl_insert {α : Type*} (addr : α → U64) (name : α → String) (rows : List α)
    (map : Std.ExtTreeMap U64 String) (a : U64) :
    a ∈ rows.foldl (fun map row => map.insert (addr row) (name row)) map ↔
      a ∈ map ∨ a ∈ rows.map addr := by
  induction rows generalizing map with
  | nil => simp
  | cons row rows ih =>
      rw [List.foldl_cons, ih, Std.ExtTreeMap.mem_insert, Std.compare_eq_iff_eq, List.map_cons,
        List.mem_cons, eq_comm (a := a), or_comm (b := a ∈ map), or_assoc]

theorem mem_buildSymbolMap {bin : ProgramInfo} {moduleBase fileBase a : U64} :
    a ∈ buildSymbolMap bin moduleBase fileBase ↔
      a ∈ codeAddrs bin (fun addr => moduleBase + (addr - fileBase)) ∨
        a ∈ importSlots bin fun addr => moduleBase + (addr - fileBase) := by
  unfold buildSymbolMap codeAddrs importSlots
  dsimp only
  rw [mem_foldl_insert, mem_foldl_insert, mem_foldl_insert, List.mem_append]
  simp

theorem mem_symbolMap_of_load {file : FileBytes} {parsed : Result ProgramInfo} {ctx : LoadedCtx}
    (h : load file parsed = some ctx) {a : U64} :
    a ∈ ctx.symbolMap ↔ a ∈ codeAddrs ctx.bin id ∨ a ∈ importSlots ctx.bin id := by
  unfold load at h
  split at h
  · cases h
  · split at h
    · cases h
    · split at h
      · cases h
      · cases h
        unfold codeAddrs importSlots
        dsimp only
        rw [mem_foldl_insert, mem_foldl_insert, mem_foldl_insert, List.mem_append]
        simp

theorem Iteration.mem_keys (it : Iteration) {map : Std.ExtTreeMap U64 String} {a : U64} :
    a ∈ it.keys map ↔ a ∈ map := by
  rw [(it.perm map).mem_iff, Std.ExtTreeMap.mem_keys]

/-- The symbol map of a session is that of its binary, at some load base. -/
structure CoreCtx.LoadedAt (c : CoreCtx) (base : U64) : Prop where
  map_eq : c.symbolMap = buildSymbolMap c.mainBin base c.mainBin.imageBase
  fresh : c.binaryParsed = false → c = {}

/-- `ensure_binary_parsed` leaves the symbol map of the binary, and returns false only if that is
empty. -/
theorem ensureBinaryParsed_loadedAt (parseFile : String → Result ProgramInfo)
    (modules : Result (List Module)) {c : CoreCtx} {base : U64} (h : c.LoadedAt base) :
    ∃ base', (ensureBinaryParsed parseFile modules c).2.LoadedAt base' ∧
      ((ensureBinaryParsed parseFile modules c).1 = false →
        ∀ a, a ∉ (ensureBinaryParsed parseFile modules c).2.symbolMap) := by
  unfold ensureBinaryParsed
  by_cases hparsed : c.binaryParsed = true
  · rw [if_pos hparsed]
    refine ⟨base, h, fun hnone a ha => ?_⟩
    rw [h.map_eq, mem_buildSymbolMap] at ha
    simp only [decide_eq_false_iff_not, Nat.not_lt, Nat.le_zero, Nat.add_eq_zero_iff,
      List.length_eq_zero_iff] at hnone
    obtain ⟨⟨⟨-, himports⟩, hexports⟩, hsymbols⟩ := hnone
    simp [codeAddrs, importSlots, himports, hexports, hsymbols] at ha
  · rw [if_neg hparsed]
    obtain rfl := h.fresh (by simpa using hparsed)
    -- without a binary the map stays empty
    have hempty : ({ binaryParsed := true } : CoreCtx).LoadedAt 0 :=
      ⟨rfl, fun hfresh => nomatch hfresh⟩
    have hnone : ∀ a, a ∉ ({ binaryParsed := true } : CoreCtx).symbolMap :=
      fun _ => Std.ExtTreeMap.not_mem_empty
    rcases modules with e | _ | ⟨first, rest⟩
    · exact ⟨0, hempty, fun _ => hnone⟩
    · exact ⟨0, hempty, fun _ => hnone⟩
    · cases hfile : parseFile first.name with
      | error e =>
          simp only [hfile]
          exact ⟨0, hempty, fun _ => hnone⟩
      | ok bin =>
          simp only [hfile]
          exact ⟨first.base, ⟨rfl, fun hfresh => nomatch hfresh⟩, fun hfalse => nomatch hfalse⟩

theorem CoreCtx.Reached.loadedAt {parseFile : String → Result ProgramInfo} {c : CoreCtx}
    (h : Reached parseFile c) : ∃ base, c.LoadedAt base := by
  induction h with
  | start => exact ⟨0, rfl, fun _ => rfl⟩
  | ensure modules _ ih =>
      obtain ⟨base, hbase⟩ := ih
      obtain ⟨base', hbase', -⟩ := ensureBinaryParsed_loadedAt parseFile modules hbase
      exact ⟨base', hbase'⟩

/-! ## What is found -/

/-- Every function is reachable from the roots by direct calls. -/
def CodeOnly (fetch : U64 → Option Instruction) (roots : List U64) (result : AnalysisResult) :
    Prop :=
  ∀ fn ∈ result.functions, Callable fetch roots fn.addr

/-- What is callable from callable addresses is callable. -/
theorem callable_of_entries {fetch : U64 → Option Instruction} {entries roots : List U64}
    (hentries : ∀ e ∈ entries, e ≠ 0 → Callable fetch roots e) {e : U64}
    (h : Callable fetch entries e) : Callable fetch roots e := by
  induction h with
  | entry he hne => exact hentries _ he hne
  | call _ ha hinsn hc ih => exact .call ih ha hinsn hc

/-- An analysis that starts at code and at slots finds code only exactly if every slot is called
from the code. -/
theorem codeOnly_iff_slots {disasm : Disassembler} {reader : ByteReader}
    {symbolLookup : Option (U64 → Option String)} {fuel : ℕ} {entries roots slots : List U64}
    {result : AnalysisResult}
    (h : Analysis.analyze disasm reader symbolLookup fuel entries = some result)
    (hentries : ∀ e, e ≠ 0 → (e ∈ entries ↔ e ∈ roots ∨ e ∈ slots)) :
    CodeOnly (fetch disasm reader) roots result ↔
      ∀ slot ∈ slots, slot ≠ 0 → Callable (fetch disasm reader) roots slot := by
  obtain ⟨hcallable, hentry⟩ := analyze_rooted h
  constructor
  · intro hcode slot hslot hne
    obtain ⟨fn, hfn, rfl⟩ := hentry slot ((hentries slot hne).mpr (Or.inr hslot)) hne
    exact hcode fn hfn
  · intro hslots fn hfn
    refine callable_of_entries (fun e he hne => ?_) (hcallable fn hfn)
    rcases (hentries e hne).mp he with hroot | hslot
    · exact .entry hroot hne
    · exact hslots e hslot hne

/-- Where the code of a static session starts: the entry point, the symbols and the exports. -/
def LoadedCtx.roots (ctx : LoadedCtx) : List U64 :=
  ctx.bin.entryPoint :: codeAddrs ctx.bin id

/-- The import slots of a static session. -/
def LoadedCtx.slots (ctx : LoadedCtx) : List U64 :=
  importSlots ctx.bin id

/-- Where the code of a live session starts: the program counter, the symbols and the exports, where
they were loaded. -/
def CoreCtx.roots (c : CoreCtx) (registers : RegisterSet) (base : U64) : List U64 :=
  (registers.get "rip").getD 0 ::
    codeAddrs c.mainBin fun addr => base + (addr - c.mainBin.imageBase)

/-- The import slots of a live session, where they were loaded. -/
def CoreCtx.slots (c : CoreCtx) (base : U64) : List U64 :=
  importSlots c.mainBin fun addr => base + (addr - c.mainBin.imageBase)

/-- **When an analysis finds code only.**  In a static session, and in a live one after any calls,
every function is reachable by direct calls from the entry point or the program counter, the
exports and the symbols exactly if every import slot is. -/
theorem codeOnly_iff (disasm : Disassembler) (it : Iteration) :
    (∀ (file : FileBytes) (parsed : Result ProgramInfo) (ctx : LoadedCtx) (fuel : ℕ)
      (result : AnalysisResult), load file parsed = some ctx →
      ctx.analyze disasm it fuel = some result →
      (CodeOnly (fetch disasm ctx.static.reader) ctx.roots result ↔
        ∀ slot ∈ ctx.slots, slot ≠ 0 →
          Callable (fetch disasm ctx.static.reader) ctx.roots slot)) ∧
    ∀ (parseFile : String → Result ProgramInfo) (c c' : CoreCtx)
      (modules : Result (List Module)) (registers : RegisterSet) (reader : ByteReader) (fuel : ℕ)
      (result : AnalysisResult), c.Reached parseFile →
      runAnalysis parseFile modules disasm reader it fuel registers c = (some result, c') →
      ∃ base, c'.LoadedAt base ∧
        (CodeOnly (fetch disasm reader) (c'.roots registers base) result ↔
          ∀ slot ∈ c'.slots base, slot ≠ 0 →
            Callable (fetch disasm reader) (c'.roots registers base) slot) := by
  constructor
  · intro file parsed ctx fuel result hload hrun
    refine codeOnly_iff_slots hrun fun e hne => ?_
    rw [LoadedCtx.entries, LoadedCtx.roots, LoadedCtx.slots, List.mem_append, it.mem_keys,
      mem_symbolMap_of_load hload, List.mem_cons, or_assoc]
    refine or_congr_left ?_
    split
    · rw [List.mem_singleton]
    · next hzero =>
        rw [not_not.mp hzero]
        exact iff_of_false List.not_mem_nil hne
  · intro parseFile c c' modules registers reader fuel result hreached hrun
    obtain ⟨base, hbase⟩ := hreached.loadedAt
    obtain ⟨base', hloaded, hempty⟩ := ensureBinaryParsed_loadedAt parseFile modules hbase
    unfold runAnalysis at hrun
    cases hensure : ensureBinaryParsed parseFile modules c with
    | mk parsed d =>
        rw [hensure] at hloaded hempty hrun
        obtain ⟨hresult, rfl⟩ := Prod.mk.inj hrun
        refine ⟨base', hloaded, codeOnly_iff_slots hresult fun e _ => ?_⟩
        rw [CoreCtx.roots, CoreCtx.slots, List.mem_cons, List.mem_cons, or_assoc]
        refine or_congr_right ?_
        rw [← mem_buildSymbolMap, ← hloaded.map_eq]
        cases parsed with
        | true => exact it.mem_keys
        | false => exact iff_of_false List.not_mem_nil (hempty rfl e)

/-! ## A program with one import -/

/-- A `ret` at the entry point, and an import slot behind it. -/
def retProgram : ProgramInfo where
  imageBase := 0
  sections := [⟨0x1000, 1, 0, 1⟩]
  entryPoint := 0x1000
  imports := [⟨"ExitProcess", 0x2000⟩]
  exports := []
  symbols := []

/-- The session that its file is loaded into. -/
def retCtx : LoadedCtx where
  bin := retProgram
  image := [0xC3]
  length_lt := by decide
  symbolMap := (∅ : Std.ExtTreeMap U64 String).insert 0x2000 "sym.imp.ExitProcess"

/-- The keys in increasing order. -/
def sortedKeys : Iteration :=
  ⟨fun map => map.keys, fun _ => .refl _⟩

private theorem load_ret : load (some ⟨[0xC3], by decide⟩) (.ok retProgram) = some retCtx := rfl

private theorem ret_fetch {pc : U64} {insn : Instruction}
    (h : fetch smallDecoder retCtx.static.reader pc = some insn) :
    pc = 0x1000 ∧ insn = { address := 0x1000, length := 1, flow := .ret } := by
  obtain ⟨hwindow, hdecode⟩ := decodeOne_of_fetch h
  obtain rfl : pc = 0x1000 := by
    by_contra hne
    refine hwindow ?_
    have hout : pc < 0x1000 ∨ (0x1000 : U64) + 1 ≤ pc := by
      rw [BitVec.lt_def, BitVec.le_def]
      have : pc.toNat ≠ 0x1000 := fun heq => hne (BitVec.eq_of_toNat_eq heq)
      change pc.toNat < 0x1000 ∨ 0x1001 ≤ pc.toNat
      omega
    have hsource : copySource retCtx.static.image pc kReadWindow retCtx.static.bin.sections =
        none := by
      change copySource [0xC3] pc kReadWindow [⟨0x1000, 1, 0, 1⟩] = none
      rw [copySource, if_pos hout, copySource]
    have hread : retCtx.static.readAt pc kReadWindow = [] := by
      rw [StaticCtx.readAt, hsource]
    exact congrArg List.length hread
  exact ⟨rfl, (Except.ok.inj hdecode).symm⟩

private theorem ret_wellPlaced : WellPlaced (fetch smallDecoder retCtx.static.reader) :=
  wellPlaced_fetch smallDecoder_lawful fun pc insn h => by
    rw [(ret_fetch h).2]
    decide

private theorem ret_callable {e : U64}
    (h : Callable (fetch smallDecoder retCtx.static.reader) retCtx.roots e) : e = 0x1000 := by
  induction h with
  | entry he _ => exact List.mem_singleton.mp he
  | call _ _ hinsn hc _ =>
      rw [(ret_fetch hinsn).2] at hc
      exact absurd hc List.not_mem_nil

theorem codeOnly_iff_ret :
    (∃ fuel result, retCtx.analyze smallDecoder sortedKeys fuel = some result ∧
      (CodeOnly (fetch smallDecoder retCtx.static.reader) retCtx.roots result ↔
        ∀ slot ∈ retCtx.slots, slot ≠ 0 →
          Callable (fetch smallDecoder retCtx.static.reader) retCtx.roots slot)) ∧
    ∃ fuel result c' base,
      runAnalysis (fun _ => .ok retProgram) (.ok [⟨0x400000, "ret.exe"⟩]) smallDecoder
        (imageReader 0x1000 smallImage) sortedKeys fuel {} {} = (some result, c') ∧
      c'.LoadedAt base ∧
      (CodeOnly (fetch smallDecoder (imageReader 0x1000 smallImage)) (c'.roots {} base) result ↔
        ∀ slot ∈ c'.slots base, slot ≠ 0 →
          Callable (fetch smallDecoder (imageReader 0x1000 smallImage)) (c'.roots {} base)
            slot) := by
  constructor
  · obtain ⟨fuel, result, hrun⟩ :=
      exists_analyze ret_wellPlaced (some retCtx.resolveSymbol) (retCtx.entries sortedKeys)
    exact ⟨fuel, result, hrun,
      (codeOnly_iff smallDecoder sortedKeys).1 _ _ retCtx fuel result load_ret hrun⟩
  · obtain ⟨fuel, result, hrun⟩ := exists_analyze
      (wellPlaced_fetch smallDecoder_lawful small_fetch_end)
      (some fun addr => (resolveSymbol (fun _ => .ok retProgram) (.ok [⟨0x400000, "ret.exe"⟩]) addr
        (ensureBinaryParsed (fun _ => .ok retProgram) (.ok [⟨0x400000, "ret.exe"⟩]) {}).2).1)
      (0 :: sortedKeys.keys (ensureBinaryParsed (fun _ => .ok retProgram)
        (.ok [⟨0x400000, "ret.exe"⟩]) {}).2.symbolMap)
    have hlive : runAnalysis (fun _ => .ok retProgram) (.ok [⟨0x400000, "ret.exe"⟩]) smallDecoder
        (imageReader 0x1000 smallImage) sortedKeys fuel {} {} = (some result, _) :=
      Prod.ext hrun rfl
    obtain ⟨base, hbase⟩ :=
      (codeOnly_iff smallDecoder sortedKeys).2 _ {} _ _ {} _ fuel result .start hlive
    exact ⟨fuel, result, _, base, hlive, hbase⟩

/-- In general the import slot is reported as a function, although nothing calls it. -/
theorem not_codeOnly : ∃ (file : FileBytes) (parsed : Result ProgramInfo) (ctx : LoadedCtx)
    (fuel : ℕ) (result : AnalysisResult), load file parsed = some ctx ∧
    ctx.analyze smallDecoder sortedKeys fuel = some result ∧
    ¬ CodeOnly (fetch smallDecoder ctx.static.reader) ctx.roots result ∧
    ∃ slot ∈ ctx.slots, ¬ Callable (fetch smallDecoder ctx.static.reader) ctx.roots slot ∧
      ∃ fn ∈ result.functions, fn.addr = slot := by
  obtain ⟨fuel, result, hrun⟩ :=
    exists_analyze ret_wellPlaced (some retCtx.resolveSymbol) (retCtx.entries sortedKeys)
  have hslot : ¬ Callable (fetch smallDecoder retCtx.static.reader) retCtx.roots 0x2000 :=
    fun hcall => absurd (ret_callable hcall) (by decide)
  have hentry : (0x2000 : U64) ∈ retCtx.entries sortedKeys := by
    rw [LoadedCtx.entries, List.mem_append, sortedKeys.mem_keys]
    exact Or.inr (Std.ExtTreeMap.mem_insert.mpr (Or.inl rfl))
  obtain ⟨fn, hfn, haddr⟩ := (analyze_rooted hrun).2 0x2000 hentry (by decide)
  refine ⟨_, _, retCtx, fuel, result, load_ret, hrun, fun hcode => hslot ?_,
    0x2000, List.mem_singleton_self _, hslot, fn, hfn, haddr⟩
  rw [← haddr]
  exact hcode fn hfn

end Irida.Api
