import Irida.Gui.Process
import Irida.Lib.Simulation

/-!
# A session shows the process

`session_follows` says that the sessions of `capi_target.cpp` answer as the session that only looks
(`GuestSession`) promises, for any calls in any order, until the process is gone.  So no answer
depends on which queries came before, although the session reads pages once for a stop and parses
the file once for all.

If a run call fails although the process has run, the answers that come from the registers and the
pages of the last stop are not promised until there is the next one; what the session then shows is
the process again, whatever was in the cache.  One assumption is special to the file: the main
module stays what it is (`KeepsMain`), since the file that was parsed first is used for good.
-/

namespace Irida.Gui

open Analysis Api Binfmt Disasm Target Simulation

/-! ## Both sessions -/

/-- A call of a session: a query, or one of the other entries. -/
inductive CoreCall
  | query (q : Query)
  | act (c : SessionCall)

/-- A call of a session on a process. -/
def coreCall {β : Type*} (ops : CoreBackend β) (parseFile : String → Result FileInfo)
    (how : CoreSession.Setup β) : CoreCall → CoreSession β → Option (Answer × CoreSession β)
  | .query q, s => some (s.query ops parseFile how.disasm q)
  | .act c, s => some (.done, s.acted ops parseFile how c)

/-- The call as it is meant, with the answer if one is promised. -/
def guestCall {γ : Type*} (p : Process γ) (parseFile : String → Result FileInfo)
    (disasm : Disassembler) (it : Iteration) (fuel : ℕ) :
    CoreCall → GuestSession γ → Option (Option Answer × GuestSession γ)
  | .query q, s => some (if s.promises q then some (s.answer p parseFile disasm q) else none, s)
  | .act c, s => (s.act p parseFile disasm it fuel c).map fun s => (some .done, s)

/-! ## The session sees the process -/

section Follows

variable {β γ : Type*} {rel : β → γ → Prop} {ops : CoreBackend β} {p : Process γ}
  {parseFile : String → Result FileInfo} {s : CoreSession β} {gs : GuestSession γ}

/-- The registers of a backend. -/
def readState (ops : CoreBackend β) (b : β) : Result RegisterSet × β :=
  match ops.readRegisters b with
  | (.error e, b) => (.error e, b)
  | (.ok block, b) => (RegisterSet.decode block, b)

/-- A run call of a backend, with the registers behind it. -/
def runCall (ops : CoreBackend β) (go : β → Result Backend.StopReply × β) (b : β) :
    Result RegisterSet × β :=
  match go b with
  | (.error e, b) => (.error e, b)
  | (.ok _, b) => readState ops b

/-- A list of the backend is that of the process. -/
def Lists {ρ : Type*} (rel : β → γ → Prop) (call : β → Result (List ρ) × β)
    (list : γ → Option (List ρ)) : Prop :=
  ∀ b g, rel b g → (call b).1.toOption = list g ∧ rel (call b).2 g

/-- A run call of the backend runs the process. -/
def Drives (rel : β → γ → Prop) (call : β → Result RegisterSet × β) (p : Process γ)
    (run : γ → Ran γ) : Prop :=
  ∀ b g, rel b g →
    match run g with
    | .stopped g' => (call b).1 = .ok (p.registers g') ∧ rel (call b).2 g'
    | .refused => (∃ e, (call b).1 = .error e) ∧ rel (call b).2 g
    | .failed g' => (∃ e, (call b).1 = .error e) ∧ rel (call b).2 g'
    | .gone => True

/-- The backend has hold of the process.  It gives the pages that are mapped and no others, and the
lists, and it runs the process. -/
structure Debugs (rel : β → γ → Prop) (ops : CoreBackend β) (p : Process γ) : Prop where
  serves : ∀ g, Serves ops.toBackend (fun b => rel b g) (p.mem g) (p.mapped g)
  modules : Lists rel ops.modules p.modules
  maps : Lists rel ops.maps p.maps
  threads : Lists rel ops.threads p.threads
  cont : Drives rel (runCall ops ops.cont) p p.cont
  step : Drives rel (runCall ops ops.step) p p.step

/-- The backend has taken hold of the process, whose registers can be read. -/
structure Attached (rel : β → γ → Prop) (ops : CoreBackend β) (p : Process γ) (b : β) (g : γ) :
    Prop where
  registers : (readState ops b).1 = .ok (p.registers g)
  backend : rel (readState ops b).2 g

/-- The file of the main module is parsed, with the names of its addresses, or it was not asked
for yet. -/
structure Parsed (p : Process γ) (parseFile : String → Result FileInfo) (g : γ)
    (s : CoreSession β) : Prop where
  mainBin : s.mainBin =
    if s.binaryParsed then (p.mainFile parseFile g).getD {} else {}
  symbolMap : s.symbolMap = if s.binaryParsed then p.symbolMap parseFile g else ∅

/-- The session is on the process, and at its last stop if it is fresh. -/
structure Reflects (rel : β → γ → Prop) (p : Process γ) (parseFile : String → Result FileInfo)
    (s : CoreSession β) (gs : GuestSession γ) : Prop where
  backend : rel s.target.backend gs.guest
  cache : gs.fresh = true → CacheServed (p.mem gs.guest) (p.mapped gs.guest) s.target.cache
  registers : gs.fresh = true → s.target.state.registers = p.registers gs.guest
  epoch : s.target.epoch = gs.epoch
  parsed : Parsed p parseFile gs.guest s
  analysis : ∀ result ∈ gs.analysis, s.analysis = result

/-- A query has given these rows, if they are promised, and has left the session where it was. -/
def Gives {ρ : Type*} (rel : β → γ → Prop) (p : Process γ) (parseFile : String → Result FileInfo)
    (gs : GuestSession γ) (promised : Bool) (out : ρ × CoreSession β) (rows : ρ) : Prop :=
  (promised = true → out.1 = rows) ∧ Reflects rel p parseFile out.2 gs

theorem Gives.map {ρ τ : Type*} {promised : Bool} {out : ρ × CoreSession β} {rows : ρ}
    (h : Gives rel p parseFile gs promised out rows) (f : ρ → τ) :
    Gives rel p parseFile gs promised (out.map f id) (f rows) :=
  ⟨fun hpromised => congrArg f (h.1 hpromised), h.2⟩

/-- The session with its target elsewhere in the same stop. -/
theorem Reflects.setTarget (h : Reflects rel p parseFile s gs) {t : Target β}
    (hbackend : rel t.backend gs.guest)
    (hcache : gs.fresh = true → CacheServed (p.mem gs.guest) (p.mapped gs.guest) t.cache)
    (hstate : t.state = s.target.state) (hepoch : t.epoch = s.target.epoch) :
    Reflects rel p parseFile { s with target := t } gs where
  backend := hbackend
  cache := hcache
  registers hfresh := by
    rw [hstate]
    exact h.registers hfresh
  epoch := hepoch.trans h.epoch
  parsed := ⟨h.parsed.1, h.parsed.2⟩
  analysis := h.analysis

/-- A read of memory. -/
theorem Reflects.readMemory (h : Reflects rel p parseFile s gs) (hdebugs : Debugs rel ops p)
    (addr len : U64) : ∃ r target, s.target.readMemory ops.toBackend addr len = (r, target) ∧
      (gs.fresh = true → r.toOption = p.read gs.guest addr len.toNat) ∧
      Reflects rel p parseFile { s with target := target } gs := by
  have hserves := hdebugs.serves gs.guest
  by_cases hfresh : gs.fresh = true
  · obtain ⟨r, c, b, hread, hcache, hrel, hr⟩ :=
      readMemory_served hserves (h.cache hfresh) h.backend addr len
    refine ⟨r, _, hread, fun _ => ?_, h.setTarget hrel (fun _ => hcache) rfl rfl⟩
    rcases hr with ⟨hall, rfl⟩ | ⟨hnot, e, rfl⟩
    · rw [Process.read, if_pos hall]
      rfl
    · rw [Process.read, if_neg hnot]
      rfl
  · exact ⟨_, _, rfl, fun hnow => absurd hnow hfresh,
      h.setTarget (readMemory_live hserves h.backend addr len)
        (fun hnow => absurd hnow hfresh) rfl rfl⟩

theorem Reflects.ask (h : Reflects rel p parseFile s gs) {ρ : Type*}
    {call : β → Result (List ρ) × β} {list : γ → Option (List ρ)} (hlists : Lists rel call list) :
    (s.target.ask call).1.toOption = list gs.guest ∧
      Reflects rel p parseFile { s with target := (s.target.ask call).2 } gs := by
  obtain ⟨hlist, hrel⟩ := hlists _ _ h.backend
  exact ⟨hlist, h.setTarget hrel h.cache rfl rfl⟩

/-! ## The main module -/

/-- A file in which there is nothing. -/
structure Bare (bin : FileInfo) : Prop where
  sections : bin.sections = []
  imports : bin.imports = []
  «exports» : bin.exports = []
  symbols : bin.symbols = []

theorem bare_of_count {bin : FileInfo} (h : ¬ 0 < bin.sections.length + bin.imports.length +
    bin.exports.length + bin.symbols.length) : Bare bin := by
  constructor <;> apply List.eq_nil_of_length_eq_zero <;> omega

/-- Where there is nothing in the file there are no names. -/
theorem symbolMap_of_bare {g : γ} (h : Bare ((p.mainFile parseFile g).getD {})) :
    p.symbolMap parseFile g = ∅ := by
  unfold Process.symbolMap
  split
  · next first bin hmain hfile =>
      rw [hfile, Option.getD_some] at h
      simp [buildSymbolMap, FileInfo.program, h.imports, h.exports, h.symbols]
  · rfl

theorem symbolMap_of_mainFile_none {g : γ} (h : p.mainFile parseFile g = none) :
    p.symbolMap parseFile g = ∅ := by
  unfold Process.symbolMap
  rw [h]
  split
  · next hfile => cases hfile
  · rfl

/-- An attempt that finds no file leaves the members as they were. -/
theorem Reflects.fileMissing (h : Reflects rel p parseFile s gs)
    (hunparsed : s.binaryParsed = false) (hnone : p.mainFile parseFile gs.guest = none) :
    Reflects rel p parseFile { s with binaryParsed := true } gs ∧
      s.mainBin = (p.mainFile parseFile gs.guest).getD {} ∧
      s.symbolMap = p.symbolMap parseFile gs.guest ∧
      Bare ((p.mainFile parseFile gs.guest).getD {}) := by
  have hmain := h.parsed.mainBin
  have hnames := h.parsed.symbolMap
  rw [hunparsed, if_neg Bool.false_ne_true] at hmain hnames
  have hmap := symbolMap_of_mainFile_none hnone
  rw [hnone, hmap]
  refine ⟨⟨h.backend, h.cache, h.registers, h.epoch, ⟨?_, ?_⟩, h.analysis⟩, hmain, hnames,
    ⟨rfl, rfl, rfl, rfl⟩⟩
  · rw [if_pos rfl, hnone]
    exact hmain
  · rw [if_pos rfl, hmap]
    exact hnames

/-- An attempt that succeeds makes the members those of the file. -/
theorem Reflects.fileParsed (h : Reflects rel p parseFile s gs) {first : ModuleRow} {bin : FileInfo}
    (hfirst : p.main gs.guest = some first) (hparse : parseFile first.name = .ok bin) :
    Reflects rel p parseFile
        { s with
          binaryParsed := true
          mainBin := bin
          symbolMap := buildSymbolMap bin.program first.base bin.imageBase } gs ∧
      bin = (p.mainFile parseFile gs.guest).getD {} ∧
      buildSymbolMap bin.program first.base bin.imageBase = p.symbolMap parseFile gs.guest := by
  have hfile : p.mainFile parseFile gs.guest = some bin := by
    rw [Process.mainFile, hfirst, Option.bind_some, hparse]
    rfl
  have hmap : p.symbolMap parseFile gs.guest =
      buildSymbolMap bin.program first.base bin.imageBase := by
    unfold Process.symbolMap
    rw [hfile, hfirst]
  have hmain : bin = (p.mainFile parseFile gs.guest).getD {} := by rw [hfile, Option.getD_some]
  exact ⟨⟨h.backend, h.cache, h.registers, h.epoch,
    ⟨hmain.trans (if_pos rfl).symm, hmap.symm.trans (if_pos rfl).symm⟩, h.analysis⟩,
    hmain, hmap.symm⟩

/-- The file is parsed at the first call, and nothing that is parsed is missed where the call says
that there is none. -/
theorem Reflects.ensureBinaryParsed (h : Reflects rel p parseFile s gs)
    (hdebugs : Debugs rel ops p) : ∃ parsed s', s.ensureBinaryParsed ops parseFile = (parsed, s') ∧
      Reflects rel p parseFile s' gs ∧ s'.mainBin = (p.mainFile parseFile gs.guest).getD {} ∧
      s'.symbolMap = p.symbolMap parseFile gs.guest ∧
      (parsed = false → Bare ((p.mainFile parseFile gs.guest).getD {})) := by
  unfold CoreSession.ensureBinaryParsed
  cases hparsed : s.binaryParsed with
  -- a file that is parsed already stays, and nothing is asked
  | true =>
      have hmain := h.parsed.mainBin
      have hnames := h.parsed.symbolMap
      rw [if_pos hparsed] at hmain hnames
      exact ⟨_, s, if_pos rfl, h, hmain, hnames, fun hnone =>
        hmain ▸ bare_of_count (of_decide_eq_false hnone)⟩
  | false =>
      rw [if_neg Bool.false_ne_true]
      obtain ⟨hlist, hasked⟩ := h.ask hdebugs.modules
      dsimp only
      have hfirst : p.main gs.guest = (s.target.ask ops.modules).1.toOption.bind List.head? := by
        rw [hlist, Process.main]
      -- no answer, no module, or a first one, whose file is parsed
      rcases hmodules : (s.target.ask ops.modules).1 with e | (_ | ⟨first, rest⟩) <;>
        rw [hmodules] at hfirst
      · obtain ⟨hrel, hbin, hmap, hbare⟩ :=
          hasked.fileMissing hparsed (by rw [Process.mainFile, hfirst]; rfl)
        exact ⟨_, _, rfl, hrel, hbin, hmap, fun _ => hbare⟩
      · obtain ⟨hrel, hbin, hmap, hbare⟩ :=
          hasked.fileMissing hparsed (by rw [Process.mainFile, hfirst]; rfl)
        exact ⟨_, _, rfl, hrel, hbin, hmap, fun _ => hbare⟩
      · have hfirst : p.main gs.guest = some first := hfirst
        dsimp only
        cases hparse : parseFile first.name with
        | error e =>
            obtain ⟨hrel, hbin, hmap, hbare⟩ := hasked.fileMissing hparsed
              (by rw [Process.mainFile, hfirst, Option.bind_some, hparse]; rfl)
            exact ⟨_, _, rfl, hrel, hbin, hmap, fun _ => hbare⟩
        | ok bin =>
            obtain ⟨hrel, hbin, hmap⟩ := hasked.fileParsed hfirst hparse
            exact ⟨_, _, rfl, hrel, hbin, hmap, fun hnone => nomatch hnone⟩

theorem Reflects.resolveSymbol (h : Reflects rel p parseFile s gs) (hdebugs : Debugs rel ops p)
    (addr : U64) : ∃ s', s.resolveSymbol ops parseFile addr =
        ((p.symbolMap parseFile gs.guest)[addr]?, s') ∧ Reflects rel p parseFile s' gs := by
  obtain ⟨parsed, s', hensure, hrel, -, hmap, hnone⟩ := h.ensureBinaryParsed hdebugs
  refine ⟨s', ?_, hrel⟩
  unfold CoreSession.resolveSymbol
  rw [hensure]
  cases parsed with
  | true => simp only [if_pos, hmap]
  | false =>
      rw [symbolMap_of_bare (hnone rfl)]
      simp

theorem Reflects.fileRows (h : Reflects rel p parseFile s gs) (hdebugs : Debugs rel ops p)
    {ρ : Type*} {rows : FileInfo → List ρ} (hrows : ∀ bin, Bare bin → rows bin = []) :
    Gives rel p parseFile gs true (s.fileRows ops parseFile rows)
      (gs.fileRows p parseFile rows) := by
  obtain ⟨parsed, s', hensure, hrel, hbin, -, hnone⟩ := h.ensureBinaryParsed hdebugs
  have hfile : gs.fileRows p parseFile rows = rows ((p.mainFile parseFile gs.guest).getD {}) := by
    unfold GuestSession.fileRows
    cases p.mainFile parseFile gs.guest with
    | none => exact (hrows {} ⟨rfl, rfl, rfl, rfl⟩).symm
    | some bin => rfl
  unfold CoreSession.fileRows
  rw [hensure]
  refine ⟨fun _ => ?_, hrel⟩
  rw [hfile]
  cases parsed with
  | true => simp only [if_pos, hbin]
  | false =>
      rw [hrows _ (hnone rfl)]
      rfl

/-! ## Memory -/

theorem Reflects.listRows (h : Reflects rel p parseFile s gs) {ρ : Type*}
    {call : β → Result (List ρ) × β} {list : γ → Option (List ρ)} (hlists : Lists rel call list) :
    Gives rel p parseFile gs true (s.listRows call) ((list gs.guest).getD []) := by
  obtain ⟨hlist, hrel⟩ := h.ask hlists
  unfold CoreSession.listRows
  dsimp only
  rw [← hlist]
  cases (s.target.ask call).1 with
  | error e => exact ⟨fun _ => rfl, hrel⟩
  | ok rows => exact ⟨fun _ => rfl, hrel⟩

theorem Reflects.coreReadMemory (h : Reflects rel p parseFile s gs) (hdebugs : Debugs rel ops p)
    (addr len : U64) : Gives rel p parseFile gs gs.fresh (s.coreReadMemory ops addr len)
      ((p.read gs.guest addr len.toNat).getD []) := by
  obtain ⟨r, target, hread, hr, hrel⟩ := h.readMemory hdebugs addr len
  unfold CoreSession.coreReadMemory
  rw [hread]
  cases r with
  | error e =>
      refine ⟨fun hfresh => ?_, hrel⟩
      rw [← hr hfresh]
      rfl
  | ok bytes =>
      refine ⟨fun hfresh => ?_, hrel⟩
      have hbytes : bytes.length = len.toNat := p.length_of_read (hr hfresh).symm
      show bytes.take len.toNat = _
      rw [← hr hfresh, ← hbytes, List.take_length]
      rfl

theorem Reflects.insnRows (hdebugs : Debugs rel ops p) (bytes : Bytes) (addr : U64)
    (insns : List Instruction) (h : Reflects rel p parseFile s gs) :
    Gives rel p parseFile gs true (s.insnRows ops parseFile bytes addr insns)
      (insns.map (insnRow (fun a => (p.symbolMap parseFile gs.guest)[a]?) bytes addr)) := by
  induction insns generalizing s with
  | nil => exact ⟨fun _ => rfl, h⟩
  | cons insn insns ih =>
      unfold CoreSession.insnRows
      cases htarget : operandTarget insn with
      | none =>
          obtain ⟨hrows, hrel⟩ := ih h
          refine ⟨fun hpromised => ?_, hrel⟩
          rw [List.map_cons, ← hrows hpromised, insnRow, insnRow, htarget]
          rfl
      | some tgt =>
          obtain ⟨s₁, hname, hrel₁⟩ := h.resolveSymbol hdebugs tgt
          obtain ⟨hrows, hrel⟩ := ih hrel₁
          dsimp only
          rw [hname]
          refine ⟨fun hpromised => ?_, hrel⟩
          rw [List.map_cons, ← hrows hpromised, insnRow, insnRow, htarget]
          rfl

theorem Reflects.coreDisasm (h : Reflects rel p parseFile s gs) (hdebugs : Debugs rel ops p)
    (disasm : Disassembler) (addr count : U64) :
    Gives rel p parseFile gs gs.fresh (s.coreDisasm ops parseFile disasm addr count)
      (gs.insns p parseFile disasm addr count) := by
  unfold CoreSession.coreDisasm GuestSession.insns
  split
  · exact ⟨fun _ => rfl, h⟩
  · obtain ⟨r, target, hread, hr, hrel⟩ := h.readMemory hdebugs addr (count * kMaxInsnBytes)
    rw [hread]
    cases r with
    | error e =>
        refine ⟨fun hfresh => ?_, hrel⟩
        rw [← hr hfresh]
        rfl
    | ok bytes =>
        obtain ⟨hrows, hrel'⟩ := hrel.insnRows hdebugs bytes addr
          (disasm.decodeLinear count.toNat bytes addr)
        refine ⟨fun hfresh => ?_, hrel'⟩
        rw [← hr hfresh]
        exact hrows rfl

/-- The walk along the frames. -/
theorem Reflects.walkFrames (hdebugs : Debugs rel ops p) (n : ℕ) (fp : U64)
    (h : Reflects rel p parseFile s gs) :
    (gs.fresh = true → (Api.walkFrames ops.toBackend n fp s.target).1 = gs.frames p n fp) ∧
      Reflects rel p parseFile
        { s with target := (Api.walkFrames ops.toBackend n fp s.target).2 } gs := by
  -- on the rows that are left: each round reads one frame, which may fill the cache
  induction n generalizing s fp with
  | zero => exact ⟨fun _ => by rw [Api.walkFrames, GuestSession.frames], h⟩
  | succ n ih =>
      obtain ⟨r, target, hread, hr, hrel⟩ := h.readMemory hdebugs fp 16
      have hcaller : gs.fresh = true → gs.caller p fp = r.toOption.bind fun frameMem =>
          if loadU64 frameMem ≤ fp ∨ loadU64 (frameMem.drop 8) = 0 then none
          else some ⟨loadU64 (frameMem.drop 8), loadU64 frameMem⟩ := by
        intro hfresh
        rw [hr hfresh, GuestSession.caller]
        rfl
      rw [Api.walkFrames, GuestSession.frames, hread]
      cases r with
      | error e => exact ⟨fun hfresh => by rw [hcaller hfresh]; rfl, hrel⟩
      | ok frameMem =>
          dsimp only [Except.toOption, Option.bind_some] at hcaller ⊢
          split
          -- a read that succeeds returns all of the frame
          · next hshort =>
              refine ⟨fun hfresh => absurd hshort ?_, hrel⟩
              rw [p.length_of_read (hr hfresh).symm]
              exact lt_irrefl 16
          · split
            · next hend =>
                refine ⟨fun hfresh => ?_, hrel⟩
                rw [hcaller hfresh, if_pos hend]
            · next hmore =>
                obtain ⟨hrows, hrel'⟩ := ih (loadU64 frameMem) hrel
                refine ⟨fun hfresh => ?_, hrel'⟩
                rw [hcaller hfresh, if_neg hmore]
                exact congrArg _ (hrows hfresh)

theorem Reflects.coreBacktrace (h : Reflects rel p parseFile s gs) (hdebugs : Debugs rel ops p) :
    Gives rel p parseFile gs gs.fresh (s.coreBacktrace ops) (gs.backtrace p) := by
  obtain ⟨hrows, hrel⟩ := h.walkFrames hdebugs kMaxBacktraceFrames
    ((s.target.state.registers.get "rbp").getD 0)
  refine ⟨fun hfresh => ?_, hrel⟩
  unfold GuestSession.backtrace
  rw [← h.registers hfresh]
  exact congrArg _ (hrows hfresh)

theorem scanStrings_nil (base : U64) (minLen : ℕ) : scanStrings [] base minLen = [] := by
  rw [scanStrings, asciiPass, utf16Pass]
  rfl

theorem Reflects.coreStrings (h : Reflects rel p parseFile s gs) (hdebugs : Debugs rel ops p) :
    Gives rel p parseFile gs gs.fresh (s.coreStrings ops) (gs.strings p) := by
  obtain ⟨hlist, hasked⟩ := h.ask hdebugs.modules
  have hfirst : p.main gs.guest = (s.target.ask ops.modules).1.toOption.bind List.head? := by
    rw [hlist, Process.main]
  unfold CoreSession.coreStrings GuestSession.strings
  dsimp only
  -- without a first module both list nothing
  rcases hmodules : (s.target.ask ops.modules).1 with e | (_ | ⟨mod, rest⟩) <;>
    rw [hmodules] at hfirst <;> rw [hfirst]
  · exact ⟨fun _ => rfl, hasked⟩
  · exact ⟨fun _ => rfl, hasked⟩
  · dsimp only [Except.toOption, Option.bind_some, List.head?_cons]
    generalize (if mod.size < kStringsScanCap then mod.size else kStringsScanCap) = len
    split
    -- a module of size zero is not read, and its bytes are none
    · next hlen =>
        refine ⟨fun _ => ?_, hasked⟩
        rw [hlen]
        have hnone : p.read gs.guest mod.base (0 : U64).toNat = some [] := by
          have hall : AllMapped (p.mapped gs.guest) mod.base (0 : U64).toNat :=
            fun i hi => absurd hi (Nat.not_lt_zero i)
          rw [Process.read, if_pos hall]
          exact congrArg some (List.eq_nil_of_length_eq_zero (length_guestBytes _ _ _))
        simp only [hnone, scanStrings_nil, List.map_nil]
    · obtain ⟨r, target, hread, hr, hrel⟩ := hasked.readMemory hdebugs mod.base len
      dsimp only at hread
      rw [hread]
      cases r with
      | error e => exact ⟨fun hfresh => by rw [← hr hfresh]; rfl, hrel⟩
      | ok bytes => exact ⟨fun hfresh => by rw [← hr hfresh]; rfl, hrel⟩

/-- **A query** is answered as is promised. -/
theorem Reflects.query (h : Reflects rel p parseFile s gs) (hdebugs : Debugs rel ops p)
    (disasm : Disassembler) (q : Query) :
    Gives rel p parseFile gs (gs.promises q) (s.query ops parseFile disasm q)
      (gs.answer p parseFile disasm q) := by
  -- what is known of the analysis is what the session keeps, once one was made
  have hknown : ∀ {promised : Bool}, (promised = true → gs.analysis.isSome = true) →
      promised = true → s.analysis = gs.known := by
    intro promised hsome hpromised
    obtain ⟨result, hresult⟩ := Option.isSome_iff_exists.mp (hsome hpromised)
    rw [GuestSession.known, hresult, Option.getD_some]
    exact h.analysis result hresult
  cases q with
  | registers =>
      refine ⟨fun hfresh => ?_, h⟩
      show Answer.registers (coreRegisters s.target) = _
      rw [coreRegisters, h.registers hfresh]
      rfl
  | modules => exact (h.listRows hdebugs.modules).map Answer.modules
  | maps => exact (h.listRows hdebugs.maps).map Answer.maps
  | threads => exact (h.listRows hdebugs.threads).map Answer.threads
  | disasm addr count => exact (h.coreDisasm hdebugs disasm addr count).map Answer.disasm
  | pc =>
      refine ⟨fun hfresh => ?_, h⟩
      show Answer.number ((s.target.state.registers.get "rip").getD 0) = _
      rw [h.registers hfresh]
      rfl
  | stateEpoch => exact ⟨fun _ => congrArg Answer.number h.epoch, h⟩
  | readMemory addr len => exact (h.coreReadMemory hdebugs addr len).map Answer.bytes
  | breakpoints => exact ⟨fun _ => rfl, h⟩
  | backtrace => exact (h.coreBacktrace hdebugs).map Answer.backtrace
  -- the lists of the file are empty where `ensure_binary_parsed` says that there is none
  | sections =>
      refine (h.fileRows hdebugs fun bin hbare => ?_).map Answer.sections
      rw [sectionRows, hbare.sections, List.map_nil]
  | imports =>
      refine (h.fileRows hdebugs fun bin hbare => ?_).map Answer.imports
      rw [importRows, hbare.imports, List.map_nil]
  | getExports =>
      refine (h.fileRows hdebugs fun bin hbare => ?_).map Answer.getExports
      rw [exportRows, hbare.exports, List.map_nil]
  | symbols =>
      refine (h.fileRows hdebugs fun bin hbare => ?_).map Answer.symbols
      rw [symbolRows, hbare.symbols, List.map_nil]
  | strings => exact (h.coreStrings hdebugs).map Answer.strings
  | functions =>
      exact ⟨fun hsome => congrArg (fun r => Answer.functions (functions r)) (hknown id hsome), h⟩
  | functionBlocks fnAddr =>
      exact ⟨fun hsome => congrArg (fun r => Answer.blocks (functionBlocks r fnAddr))
        (hknown id hsome), h⟩
  | xrefsTo addr =>
      exact ⟨fun hsome => congrArg (fun r => Answer.xrefs (xrefRows r addr)) (hknown id hsome), h⟩

/-! ## Run calls -/

/-- The file stays parsed while the main module stays what it is. -/
theorem Parsed.of_main {g g' : γ} (h : Parsed p parseFile g s) (hmain : p.main g' = p.main g) :
    Parsed p parseFile g' s := by
  have hfile : p.mainFile parseFile g' = p.mainFile parseFile g := by
    rw [Process.mainFile, hmain, Process.mainFile]
  have hmap : p.symbolMap parseFile g' = p.symbolMap parseFile g := by
    unfold Process.symbolMap
    rw [hmain, hfile]
  exact ⟨hfile ▸ h.mainBin, hmap ▸ h.symbolMap⟩

/-- What a run call of the backend makes of the target. -/
theorem resume_runCall (ops : CoreBackend β) (go : β → Result Backend.StopReply × β)
    (t : Target β) : (t.resume ops.toBackend go).2 =
      match runCall ops go t.backend with
      | (.error _, b) => { t with backend := b }
      | (.ok registers, b) =>
        { backend := b
          cache := t.cache.setEpoch (t.epoch + 1)
          epoch := t.epoch + 1
          state := { epoch := t.epoch + 1, registers := registers } } := by
  unfold Target.resume runCall
  rcases go t.backend with ⟨_ | stop, b⟩
  · rfl
  · dsimp only [Target.refreshState, readState]
    rcases ops.readRegisters b with ⟨_ | block, b'⟩
    · rfl
    · dsimp only
      cases RegisterSet.decode block <;> rfl

/-- A run call brings the session to the next stop, or leaves it at the last one. -/
theorem Reflects.resume (h : Reflects rel p parseFile s gs)
    {go : β → Result Backend.StopReply × β} {run : γ → Ran γ}
    (hdrives : Drives rel (runCall ops go) p run)
    (hmain : ∀ g g', (run g).next g = some g' → p.main g' = p.main g) {gs' : GuestSession γ}
    (hrun : gs.afterRun (run gs.guest) = some gs') :
    Reflects rel p parseFile { s with target := (s.target.resume ops.toBackend go).2 } gs' := by
  have hgo := hdrives _ _ h.backend
  have hnext := hmain gs.guest
  rw [resume_runCall]
  generalize runCall ops go s.target.backend = called at hgo
  obtain ⟨r, b⟩ := called
  cases hran : run gs.guest with
  -- a stop rotates the cache and reads the registers
  | stopped g' =>
      rw [hran] at hrun hgo hnext
      obtain rfl := Option.some.inj hrun
      obtain ⟨hregisters, hrel⟩ := hgo
      obtain rfl : r = .ok (p.registers g') := hregisters
      have hparsed := h.parsed.of_main (hnext g' rfl)
      exact ⟨hrel, fun _ => cacheServed_setEpoch _ _ _ _, fun _ => rfl,
        congrArg (· + 1) h.epoch, ⟨hparsed.mainBin, hparsed.symbolMap⟩, h.analysis⟩
  -- nothing has run, and the epoch stays
  | refused =>
      rw [hran] at hrun hgo
      obtain rfl := Option.some.inj hrun
      obtain ⟨⟨e, herr⟩, hrel⟩ := hgo
      obtain rfl : r = .error e := herr
      exact h.setTarget hrel h.cache rfl rfl
  | failed g' =>
      rw [hran] at hrun hgo hnext
      obtain rfl := Option.some.inj hrun
      obtain ⟨⟨e, herr⟩, hrel⟩ := hgo
      obtain rfl : r = .error e := herr
      have hparsed := h.parsed.of_main (hnext g' rfl)
      -- what was read before stays where it is, and is worth nothing
      exact ⟨hrel, fun hfresh => (Bool.false_ne_true hfresh).elim,
        fun hfresh => (Bool.false_ne_true hfresh).elim, h.epoch,
        ⟨hparsed.mainBin, hparsed.symbolMap⟩, h.analysis⟩
  | gone =>
      rw [hran] at hrun
      cases hrun

/-! ## The analysis -/

/-- A window that the analysis reads. -/
theorem Reflects.analysisReader (h : Reflects rel p parseFile s gs) (hdebugs : Debugs rel ops p)
    (addr : U64) : ∃ bytes target,
      Api.analysisReader ops.toBackend addr kReadWindow s.target = (bytes, target) ∧
      (gs.fresh = true →
        bytes = (liveReader (p.mem gs.guest) (p.mapped gs.guest)).read addr kReadWindow) ∧
      Reflects rel p parseFile { s with target := target } gs := by
  obtain ⟨r, target, hread, hr, hrel⟩ := h.readMemory hdebugs addr (BitVec.ofNat 64 kReadWindow)
  have hwindow : (BitVec.ofNat 64 kReadWindow).toNat = kReadWindow := by decide
  rw [hwindow] at hr
  unfold Api.analysisReader
  rw [hread]
  -- a window is read as a whole or not at all
  cases r with
  | error e =>
      refine ⟨_, _, rfl, fun hfresh => ?_, hrel⟩
      have hnone := hr hfresh
      rw [Process.read] at hnone
      unfold liveReader
      dsimp only
      split at hnone
      · cases hnone
      · next hnot => rw [if_neg hnot]
  | ok bytes =>
      refine ⟨_, _, rfl, fun hfresh => ?_, hrel⟩
      have hsome := hr hfresh
      rw [Process.read] at hsome
      unfold liveReader
      dsimp only
      split at hsome
      · next hall =>
          obtain rfl := Option.some.inj hsome
          rw [if_pos hall, take_guestBytes, min_self]
      · cases hsome

theorem Reflects.readWindows (hdebugs : Debugs rel ops p) (windows : List U64)
    (h : Reflects rel p parseFile s gs) :
    Reflects rel p parseFile
      { s with target := CoreSession.readWindows ops windows s.target } gs := by
  induction windows generalizing s with
  | nil => exact h
  | cons addr windows ih =>
      obtain ⟨bytes, target, hread, -, hrel⟩ := h.analysisReader hdebugs addr
      have hnext := ih hrel
      rw [CoreSession.readWindows, List.foldl_cons, hread]
      exact hnext

theorem keys_empty (it : Iteration) : it.keys ∅ = [] := by
  have hperm := it.perm ∅
  rw [Std.ExtTreeMap.keys_eq_nil_iff.mpr rfl] at hperm
  exact hperm.eq_nil

/-- **The analysis** of a session that is fresh is that of the memory. -/
theorem Reflects.analysis_runAnalysis (h : Reflects rel p parseFile s gs)
    (hdebugs : Debugs rel ops p) (how : CoreSession.Setup β) (hfresh : gs.fresh = true) :
    (s.runAnalysis ops parseFile how).map CoreSession.analysis =
      gs.analyzed p parseFile how.disasm how.iteration how.fuel := by
  obtain ⟨parsed, s₁, hensure, hrel, -, hmap, hnone⟩ := h.ensureBinaryParsed hdebugs
  unfold CoreSession.runAnalysis GuestSession.analyzed
  rw [hensure, h.registers hfresh]
  dsimp only
  -- the seeds, the names and the windows are those of the process
  have hkeys : (if parsed = true then how.iteration.keys s₁.symbolMap else []) =
      how.iteration.keys (p.symbolMap parseFile gs.guest) := by
    cases parsed with
    | true => rw [if_pos rfl, hmap]
    | false => rw [if_neg Bool.false_ne_true, symbolMap_of_bare (hnone rfl), keys_empty]
  have hnames : (fun addr => (s₁.resolveSymbol ops parseFile addr).1) =
      fun addr => (p.symbolMap parseFile gs.guest)[addr]? := by
    funext addr
    obtain ⟨_, hname, -⟩ := hrel.resolveSymbol hdebugs addr
    rw [hname]
  have hreader : ∀ a, (CoreSession.reader ops s₁.target).read a kReadWindow =
      (liveReader (p.mem gs.guest) (p.mapped gs.guest)).read a kReadWindow := by
    intro a
    obtain ⟨bytes, _, hread, hbytes, -⟩ := hrel.analysisReader hdebugs a
    show (Api.analysisReader ops.toBackend a kReadWindow s₁.target).1 = _
    rw [hread, ← hbytes hfresh]
  rw [hkeys, hnames, analyze_congr hreader]
  generalize Analysis.analyze how.disasm _ _ how.fuel _ = result
  cases result <;> rfl

theorem Reflects.setAnalysis (h : Reflects rel p parseFile s gs) {result : AnalysisResult}
    {known : Option AnalysisResult} (hknown : ∀ r ∈ known, result = r) :
    Reflects rel p parseFile { s with analysis := result } { gs with analysis := known } :=
  ⟨h.backend, h.cache, h.registers, h.epoch, ⟨h.parsed.1, h.parsed.2⟩, hknown⟩

theorem Reflects.of_runAnalysis (h : Reflects rel p parseFile s gs) (hdebugs : Debugs rel ops p)
    (how : CoreSession.Setup β) {s' : CoreSession β}
    (hanalysis : s.runAnalysis ops parseFile how = some s') {known : Option AnalysisResult}
    (hknown : ∀ r ∈ known, s'.analysis = r) :
    Reflects rel p parseFile s' { gs with analysis := known } := by
  obtain ⟨parsed, s₁, hensure, hrel, -⟩ := h.ensureBinaryParsed hdebugs
  unfold CoreSession.runAnalysis at hanalysis
  rw [hensure] at hanalysis
  dsimp only at hanalysis
  split at hanalysis
  · cases hanalysis
  · obtain rfl := Option.some.inj hanalysis
    exact (hrel.readWindows hdebugs (how.windows s₁.target)).setAnalysis hknown

theorem Reflects.analyze (h : Reflects rel p parseFile s gs) (hdebugs : Debugs rel ops p)
    (how : CoreSession.Setup β) :
    Reflects rel p parseFile (s.acted ops parseFile how .analyze)
      { gs with
        analysis :=
          if gs.fresh then gs.analyzed p parseFile how.disasm how.iteration how.fuel
          else none } := by
  have hresult := h.analysis_runAnalysis hdebugs how
  show Reflects rel p parseFile ((s.runAnalysis ops parseFile how).getD s) _
  cases hrun : s.runAnalysis ops parseFile how with
  | none =>
      rw [hrun] at hresult
      refine h.setAnalysis fun r hr => ?_
      split at hr
      · next hfresh =>
          rw [← hresult hfresh] at hr
          cases hr
      · cases hr
  | some s' =>
      rw [hrun] at hresult
      refine h.of_runAnalysis hdebugs how hrun fun r hr => ?_
      -- only what a fresh session analyzes is known
      split at hr
      · next hfresh =>
          rw [← hresult hfresh] at hr
          exact Option.some.inj hr
      · cases hr

/-! ## Runs -/

theorem Reflects.acted (h : Reflects rel p parseFile s gs) (hdebugs : Debugs rel ops p)
    (hmain : p.KeepsMain) (how : CoreSession.Setup β) (c : SessionCall) {gs' : GuestSession γ}
    (hact : gs.act p parseFile how.disasm how.iteration how.fuel c = some gs') :
    Reflects rel p parseFile (s.acted ops parseFile how c) gs' := by
  have hsame : gs' = gs → Reflects rel p parseFile s gs' := by
    rintro rfl
    exact h
  cases c with
  | control op =>
      cases op with
      | stepInto => exact h.resume hdebugs.step hmain.step hact
      | stepOver => exact h.resume hdebugs.step hmain.step hact
      | stepOut => exact h.resume hdebugs.step hmain.step hact
      | cont => exact h.resume hdebugs.cont hmain.cont hact
      | brk => exact hsame (Option.some.inj hact).symm
      | restart => exact hsame (Option.some.inj hact).symm
      | stop => exact hsame (Option.some.inj hact).symm
  | bpToggle addr => exact hsame (Option.some.inj hact).symm
  | bpSetEnabled addr enabled => exact hsame (Option.some.inj hact).symm
  | analyze =>
      obtain rfl := Option.some.inj hact
      exact h.analyze hdebugs how

theorem coreCall_follows (hdebugs : Debugs rel ops p) (hmain : p.KeepsMain)
    (parseFile : String → Result FileInfo) (how : CoreSession.Setup β) :
    Follows (Reflects rel p parseFile) (coreCall ops parseFile how)
      (guestCall p parseFile how.disasm how.iteration how.fuel) := by
  intro call s gs promised gs' hrel hcall
  cases call with
  | query q =>
      obtain ⟨hpromised, rfl⟩ := Prod.mk.inj (Option.some.inj hcall)
      obtain ⟨hanswer, hrel'⟩ := hrel.query hdebugs how.disasm q
      refine ⟨_, _, rfl, fun answer hmem => ?_, hrel'⟩
      rw [← hpromised] at hmem
      split at hmem
      · next hpromises => exact (hanswer hpromises).trans (Option.some.inj hmem)
      · cases hmem
  | act c =>
      obtain ⟨gs₁, hact, heq⟩ := Option.map_eq_some_iff.mp hcall
      obtain ⟨rfl, rfl⟩ := Prod.mk.inj heq
      exact ⟨_, _, rfl, fun _ hdone => Option.some.inj hdone,
        hrel.acted hdebugs hmain how c hact⟩

/-- The session that is created on a backend that has taken hold of a process. -/
theorem Attached.attach {b : β} {g : γ} (h : Attached rel ops p b g)
    (parseFile : String → Result FileInfo) : ∃ t, Target.attach ops.toBackend b = .ok t ∧
      Reflects rel p parseFile { target := t } { guest := g } := by
  obtain ⟨hregisters, hrel⟩ := h
  unfold readState at hregisters hrel
  unfold Target.attach Target.refreshState
  dsimp only
  rcases hread : ops.readRegisters b with ⟨_ | block, b'⟩ <;> rw [hread] at hregisters hrel
  · cases hregisters
  · have hdecode : RegisterSet.decode block = .ok (p.registers g) := hregisters
    dsimp only
    rw [hdecode]
    exact ⟨_, rfl, hrel, fun _ => cacheServed_setEpoch _ _ _ _, fun _ => rfl, rfl, ⟨rfl, rfl⟩,
      fun _ hknown => Option.some.inj hknown⟩

/-- **A session shows the process.**  Over a backend that has hold of a process, a session is
created, and it answers any calls, in any order, as the process itself promises to answer them,
until the process is gone. -/
theorem session_follows (hdebugs : Debugs rel ops p) (hmain : p.KeepsMain)
    (parseFile : String → Result FileInfo) (how : CoreSession.Setup β) {b : β} {g : γ}
    (hattached : Attached rel ops p b g) (calls : List CoreCall) :
    ∃ t, Target.attach ops.toBackend b = .ok t ∧
      KeepsAll
        (run (guestCall p parseFile how.disasm how.iteration how.fuel) calls { guest := g }).1
        (run (coreCall ops parseFile how) calls { target := t }).1 := by
  obtain ⟨t, hattach, hreflects⟩ := hattached.attach parseFile
  exact ⟨t, hattach, (coreCall_follows hdebugs hmain parseFile how).run_keeps calls hreflects⟩

end Follows

/-! ## A process that counts -/

/-- A process of one page, which is filled with the number of its runs.  Its single steps fail
behind the run. -/
def counter : Process U64 where
  mem n _ := n.setWidth 8
  mapped _ := onePageMapped
  registers _ := {}
  modules _ := some [{ name := "counter.exe", base := 0x1000, size := 0x1000 }]
  maps _ := some []
  threads _ := none
  cont n := .stopped (n + 1)
  step n := .failed (n + 1)

/-- A backend that has hold of it. -/
def counterOps : CoreBackend U64 where
  cont n := (.ok {}, n + 1)
  step n := (.error "step: not stopped", n + 1)
  readRegisters n := (.ok [], n)
  readMemory addr len n :=
    (if onePageMapped addr then .ok (guestBytes (fun _ => n.setWidth 8) addr len.toNat)
      else .error "read_memory: target error E1", n)
  maps n := (.ok [], n)
  modules n := (.ok [{ name := "counter.exe", base := 0x1000, size := 0x1000 }], n)
  threads n := (.error "threads: not attached", n)

theorem counter_debugs : Debugs (· = ·) counterOps counter where
  serves _ :=
    { served := by
        rintro b page rfl - hmapped
        exact ⟨b, rfl, by simp [counterOps, counter, show onePageMapped page = true from hmapped]⟩
      refused := by
        rintro b page rfl - hmapped
        exact ⟨_, b, rfl, by
          simp only [counterOps, show onePageMapped page = false from hmapped]
          rfl⟩ }
  modules := by
    rintro b _ rfl
    exact ⟨rfl, rfl⟩
  maps := by
    rintro b _ rfl
    exact ⟨rfl, rfl⟩
  threads := by
    rintro b _ rfl
    exact ⟨rfl, rfl⟩
  cont := by
    rintro b _ rfl
    exact ⟨rfl, rfl⟩
  step := by
    rintro b _ rfl
    exact ⟨⟨_, rfl⟩, rfl⟩

theorem counter_keepsMain : counter.KeepsMain where
  cont _ _ _ := rfl
  step _ _ _ := rfl

theorem counter_attached : Attached (· = ·) counterOps counter 0 0 :=
  ⟨rfl, rfl⟩

/-- How the counter is analysed. -/
def counterSetup : CoreSession.Setup U64 :=
  ⟨smallDecoder, sortedKeys, 10, fun _ => []⟩

/-- A read, a step that fails behind the run, a run, and reads behind each. -/
def counterCalls : List CoreCall :=
  [.query (.readMemory 0x1000 2), .act (.control .stepInto), .query (.readMemory 0x1000 2),
    .act (.control .cont), .query (.readMemory 0x1000 2)]

/-- Nothing is promised behind the step, and after the next stop the page is read again. -/
theorem session_follows_counter :
    ∃ t, Target.attach counterOps.toBackend 0 = .ok t ∧
      KeepsAll [some (.bytes [0, 0]), some .done, none, some .done, some (.bytes [2, 2])]
        (run (coreCall counterOps (fun _ => .error "no file") counterSetup) counterCalls
          { target := t }).1 := by
  have hread : ∀ n : U64, counter.read n 4096#64 2 = some [n.setWidth 8, n.setWidth 8] := by
    intro n
    have hall : AllMapped (counter.mapped n) 4096#64 2 := by
      show AllMapped onePageMapped 4096#64 2
      decide
    rw [Process.read, if_pos hall]
    simp [guestBytes, counter, List.range_succ]
  obtain ⟨t, hattach, hanswers⟩ := session_follows counter_debugs counter_keepsMain
    (fun _ => .error "no file") counterSetup counter_attached counterCalls
  refine ⟨t, hattach, ?_⟩
  have hguest : (run (guestCall counter (fun _ => .error "no file") smallDecoder sortedKeys 10)
      counterCalls { guest := 0 }).1 =
      [some (.bytes [0, 0]), some .done, none, some .done, some (.bytes [2, 2])] := by
    have hcont : ∀ n, counter.cont n = .stopped (n + 1) := fun _ => rfl
    have hstep : ∀ n, counter.step n = .failed (n + 1) := fun _ => rfl
    simp [counterCalls, run, guestCall, GuestSession.answer, GuestSession.promises,
      GuestSession.act, GuestSession.afterRun, hcont, hstep, hread]
  exact hguest ▸ hanswers

end Irida.Gui
