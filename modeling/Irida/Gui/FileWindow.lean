import Irida.Gui.StaticViews

/-!
# A window on a file

`shows_file` follows a window on a file through any run until a process is attached to: outside an
analysis all of its views show the file, and the analysis exactly if it was made.

The panels of an analysed file lead into its code.  The double clicks on the functions lead exactly
to the addresses that direct calls lead to from where the analysis starts
(`functions_lead_to_entries`), those on the cross references exactly to the direct transfers to the
address in view (`xrefs_lead_to_transfers`).  Either way the first row of the disassembly is then
the instruction at the address.
-/

namespace Irida.Gui

open Analysis Api Binfmt Disasm Session GuardedRuns

/-- What can happen in a window on a file until a process is attached to: the worker works while the
controller waits for it. -/
def Happens (w : MainWindow FileSession) : WindowEvent FileSession → Prop
  | .call (.slot .analyze) => w.controller.analyzing = true
  | .call (.setSession _ _) => False
  | _ => True

/-! ## The session of a run -/

section Run

variable {disasm : Disassembler} {analyzed : LoadedCtx → AnalysisResult} {s t : FileSession}
  {w : MainWindow FileSession} {e : WindowEvent FileSession}

/-- The event is the work of the analysis. -/
def isAnalyze : WindowEvent FileSession → Bool
  | .call (.slot .analyze) => true
  | _ => false

theorem Happens.keeps (he : Happens w e) : e.Keeps := by
  cases e with
  | call c =>
      cases c with
      | setSession s kind => exact he
      | slot e => trivial
      | navigateTo addr => trivial
  | cellDoubleClicked p row => trivial
  | cellClicked row col => trivial
  | selectLinear => trivial

theorem called_static (t : FileSession) (call : Option SessionCall) :
    called (staticVTable disasm analyzed) (some t) call =
      some (if call = some .analyze then t.staticAnalyze analyzed else t) := by
  rcases call with - | (op | addr | ⟨addr, on⟩ | -)
  · rfl
  · cases op <;> rfl
  · rfl
  · rfl
  · rfl

theorem asks_eq_analyze (w : MainWindow FileSession) (e : WindowEvent FileSession) :
    w.asks e = some .analyze ↔ isAnalyze e = true := by
  cases e with
  | call c =>
      cases c with
      | slot e => cases e <;> simp [MainWindow.asks, ControllerCall.asks, isAnalyze]
      | setSession s kind => simp [MainWindow.asks, ControllerCall.asks, isAnalyze]
      | navigateTo addr => simp [MainWindow.asks, ControllerCall.asks, isAnalyze]
  | cellDoubleClicked p row => simp [MainWindow.asks, isAnalyze]
  | cellClicked row col => simp [MainWindow.asks, isAnalyze]
  | selectLinear => simp [MainWindow.asks, isAnalyze]

theorem session_step (hsession : w.controller.session = some t) (he : Happens w e) :
    (w.step (staticVTable disasm analyzed) e).controller.session =
      some (if isAnalyze e then t.staticAnalyze analyzed else t) := by
  rw [MainWindow.session_step he.keeps, hsession, called_static]
  simp only [asks_eq_analyze]

/-- **The analysis of the session** is there exactly if it was made. -/
theorem session_run (hsession : w.controller.session = some t)
    {events : List (WindowEvent FileSession)}
    (h : Along (MainWindow.step (staticVTable disasm analyzed)) Happens w events) :
    (events.foldl (MainWindow.step (staticVTable disasm analyzed)) w).controller.session =
      some (if events.any isAnalyze then t.staticAnalyze analyzed else t) := by
  induction events generalizing w t with
  | nil => exact hsession
  | cons e events ih =>
      have hnext := ih (session_step hsession h.1) h.2
      rw [List.foldl_cons, hnext, List.any_cons]
      cases isAnalyze e <;> cases events.any isAnalyze <;> rfl

/-- The session is the file, analysed or not. -/
def OnFile (analyzed : LoadedCtx → AnalysisResult) (s : FileSession)
    (w : MainWindow FileSession) : Prop :=
  w.controller.session = some s ∨ w.controller.session = some (s.staticAnalyze analyzed)

theorem OnFile.step (h : OnFile analyzed s w) (he : Happens w e) :
    OnFile analyzed s (w.step (staticVTable disasm analyzed) e) := by
  rcases h with hsession | hsession
  · have hnext := @session_step disasm analyzed _ _ _ hsession he
    cases hanalyze : isAnalyze e <;> rw [hanalyze] at hnext
    · exact Or.inl hnext
    · exact Or.inr hnext
  · have hnext := @session_step disasm analyzed _ _ _ hsession he
    right
    rw [hnext]
    cases isAnalyze e <;> rfl

theorem OnFile.allows (h : OnFile analyzed s w) (hs : Countable analyzed s)
    (hnew : s.analysis = {}) (he : Happens w e) (x : View) :
    w.Allows (staticVTable disasm analyzed) x e := by
  have hfits : ∀ w, OnFile analyzed s w →
      x.Fits (staticVTable disasm analyzed) w.controller.session := by
    have hbefore : x.Fits (staticVTable disasm analyzed) (some s) := by
      have hfits := @fits_of_countable disasm _ _ hs {} (by decide) (by decide) x
      rwa [← hnew] at hfits
    rintro w (hsession | hsession)
    · exact hsession ▸ hbefore
    · exact hsession ▸ fits_of_countable hs (analyzed s.ctx) hs.functions hs.xrefs x
  refine ⟨?_, hfits _ (h.step he)⟩
  rintro c rfl
  -- a step or a run call changes nothing in a session on a file
  have hsame : ∀ op, (w.controller.callSession (staticVTable disasm analyzed)
      (.control op)).session = w.controller.session := by
    intro op
    show called (staticVTable disasm analyzed) w.controller.session (some (.control op)) = _
    rcases h with hsession | hsession <;> rw [hsession, called_static] <;> rfl
  cases c with
  | setSession s kind => exact absurd he not_false
  | navigateTo addr => trivial
  | slot e =>
      cases e
      case control op =>
        intro _
        rw [hsame op]
        cases x with
        | panel p => exact fun _ => rfl
        | disassembly => exact ⟨fun _ => rfl, rfl, rfl⟩
      case analyze => exact he
      all_goals trivial

theorem allowed_run (hs : Countable analyzed s) (hnew : s.analysis = {}) (x : View)
    {events : List (WindowEvent FileSession)} (hw : OnFile analyzed s w)
    (h : Along (MainWindow.step (staticVTable disasm analyzed)) Happens w events) :
    Along (MainWindow.step (staticVTable disasm analyzed))
      (MainWindow.Allows (staticVTable disasm analyzed) x) w events := by
  induction events generalizing w with
  | nil => trivial
  | cons e events ih => exact ⟨hw.allows hs hnew h.1 x, ih (hw.step h.1) h.2⟩

end Run

/-! ## Runs of a window -/

theorem analysis_createFile {path : String} {file : FileBytes} {outcome : LiefOutcome}
    {s : FileSession} (h : createFile path file outcome = some s) : s.analysis = {} := by
  unfold createFile at h
  split at h
  · cases h
  · split at h
    · cases h
    · obtain rfl := Option.some.inj h
      rfl

/-- The window after some events. -/
def windowAfter (disasm : Disassembler) (analyzed : LoadedCtx → AnalysisResult) (s : FileSession)
    (autoAnalyze : Bool) (events : List (WindowEvent FileSession)) : MainWindow FileSession :=
  events.foldl (MainWindow.step (staticVTable disasm analyzed))
    (MainWindow.opened (staticVTable disasm analyzed) (some s) .static autoAnalyze)

/-- A run of a window on a file that was just loaded. -/
structure FileRun (disasm : Disassembler) (analyzed : LoadedCtx → AnalysisResult) (s : FileSession)
    (autoAnalyze : Bool) (events : List (WindowEvent FileSession)) : Prop where
  created : ∃ path file outcome, createFile path file outcome = some s
  countable : Countable analyzed s
  happens : Along (MainWindow.step (staticVTable disasm analyzed)) Happens
    (MainWindow.opened (staticVTable disasm analyzed) (some s) .static autoAnalyze) events

/-- The window with the analysis at hand, and none under way. -/
structure Analysed (disasm : Disassembler) (analyzed : LoadedCtx → AnalysisResult) (s : FileSession)
    (autoAnalyze : Bool) (events : List (WindowEvent FileSession)) : Prop
    extends FileRun disasm analyzed s autoAnalyze events where
  made : events.any isAnalyze = true
  idle : (windowAfter disasm analyzed s autoAnalyze events).controller.analyzing = false

/-! ## A file with a loop -/

/-- `0x1000: nop; 0x1001: jmp 0x1000`, as LIEF gives it. -/
def spinBinary : LiefBinary where
  entrypoint := 0x1000
  imagebase := 0x1000
  isPe32Plus := true
  sections := [⟨".text", 0, 3, 0, 3, true, false, true⟩]
  imports := []
  exports := none
  symbols := []

/-- The session on the file. -/
def spinSession : FileSession where
  ctx :=
    { bin := ⟨⟨0x1000, [⟨0x1000, 3, 0, 3⟩]⟩, 0x1000, [], [], []⟩
      image := [0x90, 0xEB, 0xFD]
      length_lt := by decide
      symbolMap := ∅ }
  info :=
    { path := "spin.exe"
      format := "PE"
      entryPoint := 0x1000
      imageBase := 0x1000
      is64bit := true
      sections := [⟨⟨0x1000, 3, 0, 3⟩, ".text", 5⟩]
      imports := []
      exports := []
      symbols := [] }
  bin_eq := rfl

/-- The analysis, which needs no more fuel than this. -/
def spinAnalyzed (ctx : LoadedCtx) : AnalysisResult :=
  (ctx.analyze smallDecoder sortedKeys 10).getD {}

/-- The analysis is made, and its only function is navigated to. -/
def spinEvents : List (WindowEvent FileSession) :=
  [.call (.slot .analyze), .call (.slot .analysisFinished), .cellDoubleClicked .functions 0]

private theorem spin_analyzed :
    spinSession.ctx.analyze smallDecoder sortedKeys 10 = some (spinAnalyzed spinSession.ctx) := by
  have hsome : (spinSession.ctx.analyze smallDecoder sortedKeys 10).isSome := by decide +kernel
  obtain ⟨result, hresult⟩ := Option.isSome_iff_exists.mp hsome
  rw [spinAnalyzed, hresult, Option.getD_some]

private theorem spin_run : FileRun smallDecoder spinAnalyzed spinSession true spinEvents where
  created := ⟨"spin.exe", some ⟨[0x90, 0xEB, 0xFD], by decide⟩, .binary spinBinary, rfl⟩
  countable :=
    { sections := by decide
      imports := by decide
      exports := by decide
      symbols := by decide
      strings := by decide +kernel
      functions := by decide +kernel
      xrefs := by decide +kernel }
  happens := ⟨rfl, trivial, trivial, trivial⟩

private theorem spin_analysed :
    Analysed smallDecoder spinAnalyzed spinSession true spinEvents where
  toFileRun := spin_run
  made := rfl
  idle := by decide +kernel

private theorem spin_end_lt (pc : U64) (insn : Instruction)
    (h : fetch smallDecoder spinSession.ctx.static.reader pc = some insn) :
    insn.address.toNat + insn.length.toNat < 2 ^ 64 := by
  have hfits : spinSession.ctx.static.Fits := by
    intro sec hsec
    obtain rfl := List.mem_singleton.mp hsec
    decide
  exact (StaticCtx.wellPlaced_of_fits smallDecoder_lawful hfits).end_lt h

/-! ## What a window on a file shows -/

section FileRun

variable {disasm : Disassembler} {analyzed : LoadedCtx → AnalysisResult} {s : FileSession}
  {autoAnalyze : Bool} {events : List (WindowEvent FileSession)}

theorem FileRun.session (h : FileRun disasm analyzed s autoAnalyze events) :
    (windowAfter disasm analyzed s autoAnalyze events).controller.session =
      some (if events.any isAnalyze then s.staticAnalyze analyzed else s) :=
  session_run (MainWindow.session_opened _ _ _ _) h.happens

theorem FileRun.upToDate (h : FileRun disasm analyzed s autoAnalyze events)
    (hidle : (windowAfter disasm analyzed s autoAnalyze events).controller.analyzing = false)
    (x : View) :
    (windowAfter disasm analyzed s autoAnalyze events).UpToDate (staticVTable disasm analyzed)
      x := by
  obtain ⟨path, file, outcome, hcreate⟩ := h.created
  have hnew := analysis_createFile hcreate
  have hfits : x.Fits (staticVTable disasm analyzed) (some s) := by
    have hfits := @fits_of_countable disasm _ _ h.countable {} (by decide) (by decide) x
    rwa [← hnew] at hfits
  have hallowed :=
    allowed_run h.countable hnew x (Or.inl (MainWindow.session_opened _ _ _ _)) h.happens
  exact MainWindow.upToDate_run (some s) .static autoAnalyze hfits hallowed events
    (List.prefix_refl events) hidle

/-- **A window on a file shows the file.**  The session is the file as it was loaded, with its
analysis if that was made, and outside an analysis no view is stale. -/
theorem shows_file (h : FileRun disasm analyzed s autoAnalyze events) :
    (windowAfter disasm analyzed s autoAnalyze events).controller.session =
        some (if events.any isAnalyze then s.staticAnalyze analyzed else s) ∧
      ((windowAfter disasm analyzed s autoAnalyze events).controller.analyzing = false →
        ∀ x, (windowAfter disasm analyzed s autoAnalyze events).UpToDate
          (staticVTable disasm analyzed) x) :=
  ⟨h.session, h.upToDate⟩

theorem shows_file_spin :
    (windowAfter smallDecoder spinAnalyzed spinSession true spinEvents).controller.session =
        some (spinSession.staticAnalyze spinAnalyzed) ∧
      ((windowAfter smallDecoder spinAnalyzed spinSession true spinEvents).controller.analyzing =
          false →
        ∀ x, (windowAfter smallDecoder spinAnalyzed spinSession true spinEvents).UpToDate
          (staticVTable smallDecoder spinAnalyzed) x) :=
  shows_file spin_run

end FileRun

/-! ## Where a double click leads -/

section Clicks

variable {disasm : Disassembler} {ctx : LoadedCtx} {pc : U64} {insn : Instruction}

/-- A listing from an instruction that the analyzer can read begins with it. -/
theorem head_staticDisasm (hdec : disasm.Windowed)
    (hfetch : fetch disasm ctx.static.reader pc = some insn) :
    ∃ rest, ctx.staticDisasm disasm pc DisassemblyPanel.rowLimit =
      insnRow ctx.resolveSymbol (ctx.disasmBuf pc DisassemblyPanel.rowLimit) pc insn :: rest := by
  obtain ⟨sec, hsec, hwithin, -⟩ := StaticCtx.sectionAt_of_fetch hdec.toLawful hfetch
  have hfirst := @StaticCtx.decodeOne_drop ctx.static disasm pc pc sec 3840 hdec 0 insn hsec
    hwithin hsec hfetch (BitVec.add_zero pc).symm (Nat.zero_le _) (by decide)
  rw [List.drop_zero] at hfirst
  obtain ⟨hne, hok⟩ := hfirst
  rw [LoadedCtx.staticDisasm_eq]
  change ∃ rest, (disasm.decodeLinear (255 + 1) (ctx.static.readAt pc 3840) pc).map
    (insnRow ctx.resolveSymbol (ctx.static.readAt pc 3840) pc) =
      insnRow ctx.resolveSymbol (ctx.static.readAt pc 3840) pc insn :: rest
  rw [Disassembler.decodeLinear_succ, if_neg hne, hok]
  exact ⟨_, List.map_cons⟩

/-- The first row of the disassembly is this instruction. -/
structure StartsWith (p : DisassemblyPanel) (insn : Instruction) : Prop where
  addr : p.rowAddrs[0]? = some insn.address
  address : p.view.textAt 0 0 = some (formatAddress insn.address)
  text : p.view.textAt 0 2 = some insn.text

variable {analyzed : LoadedCtx → AnalysisResult} {s t : FileSession} {w : MainWindow FileSession}

/-- A double click that leads to an instruction shows it in the first row.  The address zero stands
for the program counter. -/
theorem startsWith_of_click (hdec : disasm.Windowed) (hsession : w.controller.session = some t)
    (hfetch : fetch disasm t.ctx.static.reader pc = some insn) (hpc : pc ≠ 0) {p : PanelName}
    {row : ℤ} (hclick : (w.panels p).onDoubleClicked row = some pc) :
    StartsWith (w.step (staticVTable disasm analyzed) (.cellDoubleClicked p row)).disassembly
      insn := by
  have hstep : (w.step (staticVTable disasm analyzed) (.cellDoubleClicked p row)).disassembly =
      w.disassembly.setBase (staticVTable disasm analyzed) w.controller.isLive (some t) pc := by
    dsimp only [MainWindow.step]
    rw [hclick, ← hsession]
    rfl
  -- the listing from the address begins with the instruction there
  obtain ⟨rest, hrows⟩ := @head_staticDisasm _ t.ctx _ _ hdec hfetch
  have hinsns : ({ w.disassembly with base := pc } : DisassemblyPanel).insns
      (staticVTable disasm analyzed) (some t) =
        insnRow t.ctx.resolveSymbol (t.ctx.disasmBuf pc DisassemblyPanel.rowLimit) pc insn ::
          rest := by
    rw [← hrows, DisassemblyPanel.insns, if_pos hpc]
    rfl
  have hcount : (t.ctx.staticDisasm disasm pc DisassemblyPanel.rowLimit).length ≤ 256 := by
    rw [LoadedCtx.staticDisasm_eq, List.length_map]
    exact length_decodeLinear_le disasm 256 _ pc
  have hshows := @DisassemblyPanel.shows_refresh _ (staticVTable disasm analyzed) (some t)
    w.controller.isLive { w.disassembly with base := pc } (by rw [hinsns, ← hrows]; omega)
  rw [hinsns] at hshows
  have hrow := hshows.row 0 _ List.getElem?_cons_zero
  rw [hstep]
  exact ⟨by rw [DisassemblyPanel.setBase, hshows.rowAddrs]; rfl, hrow.address, hrow.text⟩

theorem exists_click_iff {columns : ℕ} {p : TablePanel columns} {rows : List (PanelRow columns)}
    (h : p.Shows rows) (hint : rows.length < 2 ^ 31) (a : U64) :
    (∃ row, p.onDoubleClicked row = some a) ↔ ∃ row ∈ rows, row.address = a := by
  constructor
  · rintro ⟨i, hi⟩
    rw [h.onDoubleClicked hint] at hi
    split at hi
    · cases hi
    · obtain ⟨row, hrow, haddr⟩ := Option.map_eq_some_iff.mp hi
      exact ⟨row, List.mem_of_getElem? hrow, haddr⟩
  · rintro ⟨row, hrow, haddr⟩
    obtain ⟨i, hi⟩ := List.getElem?_of_mem hrow
    refine ⟨i, ?_⟩
    rw [h.onDoubleClicked hint, if_neg (by omega), Int.toNat_natCast, hi, Option.map_some, haddr]

variable {autoAnalyze : Bool} {events : List (WindowEvent FileSession)}

theorem Analysed.session_eq (h : Analysed disasm analyzed s autoAnalyze events) :
    (windowAfter disasm analyzed s autoAnalyze events).controller.session =
      some (s.staticAnalyze analyzed) := by
  rw [h.session, h.made, if_pos rfl]

/-- An address from which a function that was found can transfer to another one directly. -/
def TransfersTo (fetch : U64 → Option Instruction) (result : AnalysisResult) (target a : U64) :
    Prop :=
  ∃ fn ∈ result.functions, Reached fetch fn.addr a ∧ ∃ insn, fetch a = some insn ∧
    insn.branchTarget = target ∧ target ≠ 0 ∧
      (insn.flow = .call ∨ insn.flow = .jump ∨ insn.flow = .condJump)

/-- What `analyze` returns, whatever the fuel. -/
theorem analyze_result {reader : ByteReader} {symbolLookup : Option (U64 → Option String)}
    {entryPoints : List U64} {fuel : ℕ} {result : AnalysisResult}
    (hplaced : WellPlaced (fetch disasm reader))
    (h : analyze disasm reader symbolLookup fuel entryPoints = some result) :
    (∀ a, (∃ fn ∈ result.functions, fn.addr = a) ↔
        Callable (fetch disasm reader) entryPoints a) ∧
      ∀ target a, (∃ x ∈ result.xrefs, x.target = target ∧ x.site = a) ↔
        TransfersTo (fetch disasm reader) result target a := by
  obtain ⟨built, hbuilt⟩ := exists_built hplaced
  obtain ⟨bound, order, -, hmem, hrun⟩ :=
    analyze_assembled hplaced hbuilt symbolLookup entryPoints
  -- with more fuel the result stays the same, so it is the one that is assembled
  have hmore := analyze_mono (le_max_left fuel bound) h
  obtain rfl := Option.some.inj (hmore.symm.trans (hrun _ (le_max_right fuel bound)))
  refine ⟨fun a => by rw [← hmem, mem_functions_iff hbuilt], fun target a => ?_⟩
  constructor
  · rintro ⟨x, hx, rfl, rfl⟩
    obtain ⟨e, he, hx⟩ := List.mem_flatMap.mp hx
    obtain ⟨a, insn, ha, hinsn, hx⟩ := ((hbuilt e).mem_xrefs_iff x).mp hx
    obtain ⟨hsite, htarget, hne, hkind⟩ := mem_refs_iff.mp hx
    rw [hplaced.address_eq hinsn] at hsite
    obtain ⟨fn, hfn, rfl⟩ := (mem_functions_iff hbuilt).mp he
    refine ⟨fn, hfn, hsite ▸ ha, insn, hsite ▸ hinsn, htarget.symm, htarget ▸ hne, ?_⟩
    exact hkind.imp And.right And.right
  · rintro ⟨fn, hfn, ha, insn, hinsn, rfl, hne, hflow⟩
    have he := (mem_functions_iff hbuilt).mpr ⟨fn, hfn, rfl⟩
    have hkind : ∃ kind : XrefKind, kind = .call ∧ insn.flow = .call ∨
        kind = .jump ∧ (insn.flow = .jump ∨ insn.flow = .condJump) :=
      hflow.elim (fun h => ⟨.call, Or.inl ⟨rfl, h⟩⟩) fun h => ⟨.jump, Or.inr ⟨rfl, h⟩⟩
    obtain ⟨kind, hkind⟩ := hkind
    refine ⟨⟨a, insn.branchTarget, kind⟩, List.mem_flatMap.mpr ⟨fn.addr, he, ?_⟩, rfl, rfl⟩
    refine ((hbuilt _).mem_xrefs_iff _).mpr ⟨a, insn, ha, hinsn, ?_⟩
    exact mem_refs_iff.mpr ⟨(hplaced.address_eq hinsn).symm, rfl, hne, hkind⟩

/-- **The panel of the cross references leads to the transfers.**  Its double clicks lead exactly to
the direct transfers to the address in view, and a double click shows the transfer in the first row
of the disassembly. -/
theorem xrefs_lead_to_transfers (hdec : disasm.Windowed)
    (hend : ∀ pc insn, fetch disasm s.ctx.static.reader pc = some insn →
      insn.address.toNat + insn.length.toNat < 2 ^ 64)
    (h : Analysed disasm analyzed s autoAnalyze events) {it : Iteration} {fuel : ℕ}
    (hanalyzed : s.ctx.analyze disasm it fuel = some (analyzed s.ctx)) (a : U64) :
    ((∃ row, ((windowAfter disasm analyzed s autoAnalyze events).panels .xrefs).onDoubleClicked
        row = some a) ↔
      TransfersTo (fetch disasm s.ctx.static.reader) (analyzed s.ctx)
        (windowAfter disasm analyzed s autoAnalyze events).target a) ∧
    ∀ row, ((windowAfter disasm analyzed s autoAnalyze events).panels .xrefs).onDoubleClicked
        row = some a → a ≠ 0 → ∃ insn, fetch disasm s.ctx.static.reader a = some insn ∧
      insn.branchTarget = (windowAfter disasm analyzed s autoAnalyze events).target ∧
      StartsWith ((windowAfter disasm analyzed s autoAnalyze events).step
        (staticVTable disasm analyzed) (.cellDoubleClicked .xrefs row)).disassembly insn := by
  have hplaced := wellPlaced_fetch hdec.toLawful hend
  have hshows := h.upToDate h.idle (.panel .xrefs)
  unfold MainWindow.UpToDate at hshows
  dsimp only at hshows
  rw [h.session_eq] at hshows
  have hfits := @fits_of_countable disasm _ _ h.countable (analyzed s.ctx) h.countable.functions
    h.countable.xrefs (.panel .xrefs) (windowAfter disasm analyzed s autoAnalyze events).target
  have hleads : (∃ row, ((windowAfter disasm analyzed s autoAnalyze events).panels
      .xrefs).onDoubleClicked row = some a) ↔
        TransfersTo (fetch disasm s.ctx.static.reader) (analyzed s.ctx)
          (windowAfter disasm analyzed s autoAnalyze events).target a := by
    rw [exists_click_iff hshows hfits, ← (analyze_result hplaced hanalyzed).2]
    constructor
    · rintro ⟨row, hrow, haddr⟩
      obtain ⟨x, hx, rfl⟩ := List.mem_map.mp hrow
      obtain ⟨y, hy, rfl⟩ := List.mem_map.mp hx
      obtain ⟨hmem, htarget⟩ := List.mem_filter.mp hy
      exact ⟨y, hmem, of_decide_eq_true htarget, haddr⟩
    · rintro ⟨y, hmem, htarget, haddr⟩
      refine ⟨_, List.mem_map_of_mem (List.mem_map_of_mem (List.mem_filter.mpr ⟨hmem, ?_⟩)), haddr⟩
      exact decide_eq_true htarget
  refine ⟨hleads, fun row hclick ha => ?_⟩
  obtain ⟨-, -, -, insn, hinsn, htarget, -⟩ := hleads.mp ⟨row, hclick⟩
  exact ⟨insn, hinsn, htarget, startsWith_of_click hdec h.session_eq hinsn ha hclick⟩

/-- The jump of the loop is a transfer to its start. -/
theorem xrefs_lead_to_transfers_spin :
    TransfersTo (fetch smallDecoder spinSession.ctx.static.reader)
      (spinAnalyzed spinSession.ctx)
      (windowAfter smallDecoder spinAnalyzed spinSession true spinEvents).target 0x1001 :=
  (xrefs_lead_to_transfers smallDecoder_windowed spin_end_lt spin_analysed spin_analyzed
    0x1001).1.mp ⟨0, by decide +kernel⟩

/-- **The panel of the functions leads to the functions.**  Its double clicks lead exactly to the
addresses that direct calls lead to from where the analysis starts, and a double click shows the
first instruction in the first row of the disassembly, if there is code. -/
theorem functions_lead_to_entries (hdec : disasm.Windowed)
    (hend : ∀ pc insn, fetch disasm s.ctx.static.reader pc = some insn →
      insn.address.toNat + insn.length.toNat < 2 ^ 64)
    (h : Analysed disasm analyzed s autoAnalyze events) {it : Iteration} {fuel : ℕ}
    (hanalyzed : s.ctx.analyze disasm it fuel = some (analyzed s.ctx)) (a : U64) :
    ((∃ row, ((windowAfter disasm analyzed s autoAnalyze events).panels
        .functions).onDoubleClicked row = some a) ↔
      Callable (fetch disasm s.ctx.static.reader) (s.ctx.entries it) a) ∧
    ∀ row insn, ((windowAfter disasm analyzed s autoAnalyze events).panels
        .functions).onDoubleClicked row = some a →
      fetch disasm s.ctx.static.reader a = some insn → a ≠ 0 →
      StartsWith ((windowAfter disasm analyzed s autoAnalyze events).step
        (staticVTable disasm analyzed) (.cellDoubleClicked .functions row)).disassembly insn := by
  have hplaced := wellPlaced_fetch hdec.toLawful hend
  have hshows := h.upToDate h.idle (.panel .functions)
  unfold MainWindow.UpToDate at hshows
  dsimp only at hshows
  rw [h.session_eq] at hshows
  have hfits := @fits_of_countable disasm _ _ h.countable (analyzed s.ctx) h.countable.functions
    h.countable.xrefs (.panel .functions) (windowAfter disasm analyzed s autoAnalyze events).target
  constructor
  · rw [exists_click_iff hshows hfits, ← (analyze_result hplaced hanalyzed).1]
    constructor
    · rintro ⟨row, hrow, haddr⟩
      obtain ⟨x, hx, rfl⟩ := List.mem_map.mp hrow
      obtain ⟨fn, hfn, rfl⟩ := List.mem_map.mp hx
      exact ⟨fn, hfn, haddr⟩
    · rintro ⟨fn, hfn, haddr⟩
      exact ⟨_, List.mem_map_of_mem (List.mem_map_of_mem hfn), haddr⟩
  · intro row insn hclick hinsn ha
    exact startsWith_of_click hdec h.session_eq hinsn ha hclick

theorem functions_lead_to_entries_spin :
    Callable (fetch smallDecoder spinSession.ctx.static.reader)
        (spinSession.ctx.entries sortedKeys) 0x1000 ∧
      ((windowAfter smallDecoder spinAnalyzed spinSession true spinEvents).step
        (staticVTable smallDecoder spinAnalyzed)
        (.cellDoubleClicked .functions 0)).disassembly.rowAddrs[0]? = some 0x1000 := by
  obtain ⟨hleads, hshows⟩ := functions_lead_to_entries smallDecoder_windowed spin_end_lt
    spin_analysed spin_analyzed 0x1000
  have hclick : ((windowAfter smallDecoder spinAnalyzed spinSession true spinEvents).panels
      .functions).onDoubleClicked 0 = some 0x1000 := by decide +kernel
  have hfetch : (fetch smallDecoder spinSession.ctx.static.reader 0x1000).isSome := by
    decide +kernel
  obtain ⟨insn, hinsn⟩ := Option.isSome_iff_exists.mp hfetch
  refine ⟨hleads.mp ⟨0, hclick⟩, ?_⟩
  rw [(hshows 0 insn hclick hinsn (by decide)).addr,
    smallDecoder_lawful.address_eq (decodeOne_of_fetch hinsn).2]

end Clicks

end Irida.Gui
