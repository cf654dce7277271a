import Irida.Gui.LiveWindow
import Irida.Gui.FileWindow
import Irida.Gui.ProcessSession

/-!
# A window on a process

`shows_process` follows a window from the moment at which a process is attached to, whatever it has
shown before.  The session is then always one on the process where the run calls have brought it
(`Reflects`), and at a stop, outside an analysis, all of its views show the process.

A run call that stops counts the epoch up, so that the controller signals it and every view is read
again; one that is refused leaves epoch and process as they were.  A run call that fails behind the
run leaves the epoch as well, and nothing tells the window: until the next stop its views are those
of the last one.
-/

namespace Irida.Gui

open Analysis Api Binfmt Disasm Session GuardedRuns

/-! ## The views of a process -/

section Table

variable {γ : Type*} (p : Process γ) (parseFile : String → Result FileInfo) (disasm : Disassembler)

/-- What the views are to show of a process. -/
def guestVTable : ViewVTable (GuestSession γ) where
  modules := some fun s => (p.modules s.guest).getD []
  maps := some fun s => (p.maps s.guest).getD []
  threads := some fun s => (p.threads s.guest).getD []
  disasm := some fun s addr count => s.insns p parseFile disasm addr count
  pc := some fun s => ((p.registers s.guest).get "rip").getD 0
  breakpoints := some fun _ => []
  backtrace := some fun s => s.backtrace p
  sections := some fun s => s.fileRows p parseFile sectionRows
  imports := some fun s => s.fileRows p parseFile importRows
  getExports := some fun s => s.fileRows p parseFile exportRows
  symbols := some fun s => s.fileRows p parseFile symbolRows
  strings := some fun s => s.strings p
  functions := some fun s => functions s.known
  xrefsTo := some fun s addr => xrefRows s.known addr

/-- A view of the window shows the process. -/
def MainWindow.ShowsProcess {β : Type*} (w : MainWindow (CoreSession β)) (gs : GuestSession γ) :
    View → Prop
  | .panel panel => (w.panels panel).Shows
      (panelRows (guestVTable p parseFile disasm) (some gs) w.target panel)
  | .disassembly => w.disassembly.Shows w.controller.isLive
      (w.disassembly.insns (guestVTable p parseFile disasm) (some gs))
      (iridaPc (guestVTable p parseFile disasm) (some gs))
      (iridaBreakpoints (guestVTable p parseFile disasm) (some gs))

/-- Whether it is known what the view is to show at a stop. -/
def GuestSession.knows (s : GuestSession γ) : View → Bool
  | .panel .functions | .panel .xrefs => s.analysis.isSome
  | _ => true

/-- The rows of a process and of its analyses can be counted by an `int`. -/
structure CountableProcess (it : Iteration) (fuel : ℕ) : Prop where
  modules : ∀ g, ((p.modules g).getD []).length < 2 ^ 31
  maps : ∀ g, ((p.maps g).getD []).length < 2 ^ 31
  threads : ∀ g, ((p.threads g).getD []).length < 2 ^ 31
  sections : ∀ g, ((p.mainFile parseFile g).getD {}).sections.length < 2 ^ 31
  imports : ∀ g, ((p.mainFile parseFile g).getD {}).imports.length < 2 ^ 31
  «exports» : ∀ g, ((p.mainFile parseFile g).getD {}).exports.length < 2 ^ 31
  symbols : ∀ g, ((p.mainFile parseFile g).getD {}).symbols.length < 2 ^ 31
  analysis : ∀ (s : GuestSession γ), ∀ result ∈ s.analyzed p parseFile disasm it fuel,
    result.functions.length < 2 ^ 31 ∧ result.xrefs.length < 2 ^ 31

end Table

/-! ## The rows can be counted -/

section Fits

variable {γ : Type*} {p : Process γ} {parseFile : String → Result FileInfo} {disasm : Disassembler}
  {it : Iteration} {fuel : ℕ} {s : GuestSession γ}

theorem length_frames_le (n : ℕ) (fp : U64) : (s.frames p n fp).length ≤ n := by
  induction n generalizing fp with
  | zero => exact Nat.le_refl 0
  | succ n ih =>
      rw [GuestSession.frames]
      split
      · exact Nat.zero_le _
      · exact Nat.succ_le_succ (ih _)

theorem iridaDisasm_guest (addr count : U64) :
    iridaDisasm (guestVTable p parseFile disasm) (some s) addr count =
      s.insns p parseFile disasm addr count :=
  rfl

theorem length_insns_le (addr count : U64) :
    (s.insns p parseFile disasm addr count).length ≤ count.toNat := by
  unfold GuestSession.insns
  split
  · exact Nat.zero_le _
  · split
    · exact Nat.zero_le _
    · rw [List.length_map]
      exact length_decodeLinear_le disasm count.toNat _ addr

theorem length_asciiPass_le (data : Bytes) (base : U64) (minLen i : ℕ) :
    (asciiPass data base minLen i).length ≤ data.length - i := by
  fun_induction asciiPass data base minLen i with
  | case1 i hlt text later hlen ih =>
      rw [List.length_cons]
      have hlater : later.length ≤ data.length - (i + text.length + 1) := ih
      omega
  | case2 i hlt text later hlen ih =>
      have hlater : later.length ≤ data.length - (i + text.length + 1) := ih
      omega
  | case3 i hge => exact Nat.zero_le _

theorem length_utf16Pass_le (data : Bytes) (base : U64) (minLen i : ℕ) :
    (utf16Pass data base minLen i).length ≤ data.length - i := by
  fun_induction utf16Pass data base minLen i with
  | case1 i hlt text j later hlen ih =>
      rw [List.length_cons]
      have hlater : later.length ≤ data.length - (if i < j then j else i + 1) := ih
      split at hlater <;> omega
  | case2 i hlt text j later hlen ih =>
      have hlater : later.length ≤ data.length - (if i < j then j else i + 1) := ih
      split at hlater <;> omega
  | case3 i hge => exact Nat.zero_le _

/-- The limit of the scan limits the strings. -/
theorem length_strings_le (s : GuestSession γ) : (s.strings p).length ≤ 2 ^ 21 := by
  unfold GuestSession.strings
  split
  · exact Nat.zero_le _
  · next mod hmod =>
      dsimp only
      have hcap : (if mod.size < kStringsScanCap then mod.size else kStringsScanCap).toNat ≤
          2 ^ 20 := by
        split
        · next hlt => exact Nat.le_of_lt hlt
        · exact Nat.le_refl _
      split
      · exact Nat.zero_le _
      · next bytes hread =>
          have hlen := p.length_of_read hread
          have hascii := length_asciiPass_le bytes mod.base 4 0
          have hutf16 := length_utf16Pass_le bytes mod.base 4 0
          rw [Nat.sub_zero, hlen] at hascii hutf16
          rw [List.length_map, scanStrings, List.length_append]
          exact Nat.add_le_add (hascii.trans hcap) (hutf16.trans hcap)

theorem fileRows_eq {ρ : Type*} {rows : FileInfo → List ρ} (hrows : rows {} = []) :
    s.fileRows p parseFile rows = rows ((p.mainFile parseFile s.guest).getD {}) := by
  unfold GuestSession.fileRows
  cases p.mainFile parseFile s.guest with
  | none => exact hrows.symm
  | some bin => rfl

/-- A session whose analysis is one that was made has as many rows as the process and the analysis
have entries. -/
theorem fits_of_countableProcess (hp : CountableProcess p parseFile disasm it fuel)
    (hknown : s.known.functions.length < 2 ^ 31 ∧ s.known.xrefs.length < 2 ^ 31) (x : View) :
    x.Fits (guestVTable p parseFile disasm) (some s) := by
  cases x with
  | disassembly =>
      intro addr
      rw [iridaDisasm_guest]
      exact Nat.lt_of_le_of_lt (length_insns_le addr DisassemblyPanel.rowLimit) (by decide)
  | panel panel =>
      intro target
      have hfile : ∀ {ρ : Type} {rows : FileInfo → List ρ}, rows {} = [] →
          (rows ((p.mainFile parseFile s.guest).getD {})).length < 2 ^ 31 →
          (s.fileRows p parseFile rows).length < 2 ^ 31 := by
        intro ρ rows hnil hlen
        rwa [fileRows_eq hnil]
      rw [length_panelRows]
      -- every list but the breakpoints, the backtrace and the strings is one of the process
      cases panel with
      | modules => exact hp.modules s.guest
      | breakpoints => exact (by decide : 0 < 2 ^ 31)
      | threads => exact hp.threads s.guest
      | memoryMap => exact hp.maps s.guest
      | backtrace =>
          have hframes := @length_frames_le γ p s kMaxBacktraceFrames
            (((p.registers s.guest).get "rbp").getD 0)
          exact Nat.lt_of_le_of_lt (Nat.succ_le_succ hframes) (by decide)
      | sections => exact hfile rfl ((List.length_map _).trans_lt (hp.sections s.guest))
      | imports => exact hfile rfl ((List.length_map _).trans_lt (hp.imports s.guest))
      | exports => exact hfile rfl ((List.length_map _).trans_lt (hp.exports s.guest))
      | symbols => exact hfile rfl ((List.length_map _).trans_lt (hp.symbols s.guest))
      | strings => exact Nat.lt_of_le_of_lt (length_strings_le s) (by decide)
      | functions => exact (List.length_map _).trans_lt hknown.1
      | xrefs =>
          refine (List.length_map _).trans_lt ?_
          exact (List.length_filter_le _ _).trans_lt hknown.2

end Fits

/-! ## What the session answers a view -/

section Views

variable {β γ : Type*} {rel : β → γ → Prop} {ops : CoreBackend β} {p : Process γ}
  {parseFile : String → Result FileInfo} {how : CoreSession.Setup β} {s : CoreSession β}
  {gs : GuestSession γ}

/-- At a stop the rows of a panel are those of the process. -/
theorem Reflects.panelRows_eq (h : Reflects rel p parseFile s gs) (hdebugs : Debugs rel ops p)
    (hfresh : gs.fresh = true) (target : U64) (panel : PanelName)
    (hknows : gs.knows (.panel panel) = true) :
    panelRows (liveVTable ops parseFile how) (some s) target panel =
      panelRows (guestVTable p parseFile how.disasm) (some gs) target panel := by
  have hanswer := fun q => (h.query hdebugs how.disasm q).1
  cases panel with
  | modules => exact congrArg (List.map _) (Answer.modules.inj (hanswer .modules rfl))
  | breakpoints => rfl
  | threads => exact congrArg (List.map _) (Answer.threads.inj (hanswer .threads rfl))
  | memoryMap => exact congrArg (List.map _) (Answer.maps.inj (hanswer .maps rfl))
  | backtrace =>
      exact congrArg (List.mapIdx _) (Answer.backtrace.inj (hanswer .backtrace hfresh))
  | sections => exact congrArg (List.map _) (Answer.sections.inj (hanswer .sections rfl))
  | imports => exact congrArg (List.map _) (Answer.imports.inj (hanswer .imports rfl))
  | exports => exact congrArg (List.map _) (Answer.getExports.inj (hanswer .getExports rfl))
  | symbols => exact congrArg (List.map _) (Answer.symbols.inj (hanswer .symbols rfl))
  | strings => exact congrArg (List.map _) (Answer.strings.inj (hanswer .strings hfresh))
  | functions => exact congrArg (List.map _) (Answer.functions.inj (hanswer .functions hknows))
  | xrefs => exact congrArg (List.map _) (Answer.xrefs.inj (hanswer (.xrefsTo target) hknows))

theorem Reflects.iridaPc_eq (h : Reflects rel p parseFile s gs) (hfresh : gs.fresh = true) :
    iridaPc (liveVTable ops parseFile how) (some s) =
      iridaPc (guestVTable p parseFile how.disasm) (some gs) := by
  show (s.target.state.registers.get "rip").getD 0 = ((p.registers gs.guest).get "rip").getD 0
  rw [h.registers hfresh]

theorem Reflects.iridaDisasm_eq (h : Reflects rel p parseFile s gs) (hdebugs : Debugs rel ops p)
    (hfresh : gs.fresh = true) (addr count : U64) :
    iridaDisasm (liveVTable ops parseFile how) (some s) addr count =
      iridaDisasm (guestVTable p parseFile how.disasm) (some gs) addr count :=
  (h.coreDisasm hdebugs how.disasm addr count).1 hfresh

end Views

/-! ## Views that are read again -/

section Refresh

variable {β γ : Type*} {rel : β → γ → Prop} {ops : CoreBackend β} {p : Process γ}
  {parseFile : String → Result FileInfo} {how : CoreSession.Setup β} {gs : GuestSession γ}
  {w w' w'' : MainWindow (CoreSession β)} {others : View → List Query} {x : View}
  {views views' : List View}

/-- The session of the window is on the process. -/
def OnProcess (rel : β → γ → Prop) (p : Process γ) (parseFile : String → Result FileInfo)
    (w : MainWindow (CoreSession β)) (gs : GuestSession γ) : Prop :=
  ∃ s, w.controller.session = some s ∧ Reflects rel p parseFile s gs

/-- Some views were read again at a stop, and the others are as they were. -/
structure Refreshes (rel : β → γ → Prop) (p : Process γ) (parseFile : String → Result FileInfo)
    (disasm : Disassembler) (gs : GuestSession γ) (views : List View)
    (w w' : MainWindow (CoreSession β)) : Prop where
  session : OnProcess rel p parseFile w' gs
  analyzing : w'.controller.analyzing = w.controller.analyzing
  shows : gs.fresh = true → ∀ x, gs.knows x = true →
    x ∈ views ∨ w.ShowsProcess p parseFile disasm gs x → w'.ShowsProcess p parseFile disasm gs x

theorem Refreshes.trans (h : Refreshes rel p parseFile how.disasm gs views w w')
    (h' : Refreshes rel p parseFile how.disasm gs views' w' w'') :
    Refreshes rel p parseFile how.disasm gs (views ++ views') w w'' where
  session := h'.session
  analyzing := h'.analyzing.trans h.analyzing
  shows hfresh x hknows hx := by
    apply h'.shows hfresh x hknows
    rcases hx with hmem | hshows
    · exact (List.mem_append.mp hmem).symm.imp_right
        fun hfirst => h.shows hfresh x hknows (Or.inl hfirst)
    · exact Or.inr (h.shows hfresh x hknows (Or.inr hshows))

theorem OnProcess.ask (h : OnProcess rel p parseFile w gs) (hdebugs : Debugs rel ops p)
    (how : CoreSession.Setup β) (q : Query) :
    Refreshes rel p parseFile how.disasm gs [] w (w.ask ops parseFile how q) := by
  obtain ⟨s, hsession, hreflects⟩ := h
  refine ⟨⟨_, ?_, (hreflects.query hdebugs how.disasm q).2⟩, rfl, fun _ x _ hx => ?_⟩
  · show w.controller.session.map _ = _
    rw [hsession, Option.map_some]
  · -- what a view shows does not depend on the session
    have hshows := hx.resolve_left List.not_mem_nil
    cases x with
    | panel panel => exact hshows
    | disassembly => exact hshows

theorem OnProcess.asks (h : OnProcess rel p parseFile w gs) (hdebugs : Debugs rel ops p)
    (how : CoreSession.Setup β) (queries : List Query) :
    Refreshes rel p parseFile how.disasm gs [] w
      (queries.foldl (MainWindow.ask ops parseFile how) w) := by
  induction queries generalizing w with
  | nil => exact ⟨h, rfl, fun _ x _ hx => hx.resolve_left List.not_mem_nil⟩
  | cons q queries ih =>
      have hask := h.ask hdebugs how q
      exact hask.trans (ih hask.session)

theorem OnProcess.refreshPanel (h : OnProcess rel p parseFile w gs) (hdebugs : Debugs rel ops p)
    (hfits : ∀ x : View, x.Fits (guestVTable p parseFile how.disasm) (some gs))
    (panel : PanelName) :
    Refreshes rel p parseFile how.disasm gs [.panel panel] w
      { w with
        panels := Function.update w.panels panel ((w.panels panel).refresh
          (panelRows (liveVTable ops parseFile how) w.controller.session w.target panel)) } := by
  obtain ⟨s, hsession, hreflects⟩ := h
  refine ⟨⟨s, hsession, hreflects⟩, rfl, fun hfresh x hknows hx => ?_⟩
  cases x with
  | disassembly =>
      have hshows := hx.resolve_left (by simp)
      exact hshows
  | panel other =>
      show (Function.update w.panels panel _ other).Shows _
      by_cases heq : other = panel
      · subst heq
        rw [Function.update_self, hsession,
          hreflects.panelRows_eq hdebugs hfresh w.target other hknows]
        exact TablePanel.shows_refresh _ (hfits (.panel other) w.target)
      · rw [Function.update_of_ne heq]
        have hshows := hx.resolve_left (by simpa using heq)
        exact hshows

theorem OnProcess.refreshDisassembly (h : OnProcess rel p parseFile w gs)
    (hdebugs : Debugs rel ops p)
    (hfits : ∀ x : View, x.Fits (guestVTable p parseFile how.disasm) (some gs)) :
    Refreshes rel p parseFile how.disasm gs [.disassembly] w
      (w.refreshDisassembly (liveVTable ops parseFile how)) := by
  obtain ⟨s, hsession, hreflects⟩ := h
  refine ⟨⟨s, hsession, hreflects⟩, rfl, fun hfresh x hknows hx => ?_⟩
  cases x with
  | panel other =>
      have hshows := hx.resolve_left (by simp)
      exact hshows
  | disassembly =>
      have hinsns : w.disassembly.insns (liveVTable ops parseFile how) (some s) =
          w.disassembly.insns (guestVTable p parseFile how.disasm) (some gs) := by
        rw [DisassemblyPanel.insns, DisassemblyPanel.insns, hreflects.iridaPc_eq hfresh,
          hreflects.iridaDisasm_eq hdebugs hfresh]
      have hshows := @DisassemblyPanel.shows_refresh _ (liveVTable ops parseFile how)
        (some s) w.controller.isLive w.disassembly (by
          rw [hinsns]
          exact hfits .disassembly _)
      have hbps : iridaBreakpoints (liveVTable ops parseFile how) (some s) =
          iridaBreakpoints (guestVTable p parseFile how.disasm) (some gs) := rfl
      rw [hinsns, hreflects.iridaPc_eq hfresh, hbps, ← hsession] at hshows
      exact hshows

/-- A view that is read again, with what its query leaves of the session. -/
theorem OnProcess.refreshLive (h : OnProcess rel p parseFile w gs) (hdebugs : Debugs rel ops p)
    (hfits : ∀ x : View, x.Fits (guestVTable p parseFile how.disasm) (some gs)) (x : View) :
    Refreshes rel p parseFile how.disasm gs [x] w (w.refreshLive ops parseFile how x) := by
  cases x with
  | panel panel =>
      have hread := h.refreshPanel hdebugs hfits panel
      exact hread.trans (hread.session.ask hdebugs how _)
  | disassembly =>
      have hread := h.refreshDisassembly hdebugs hfits
      exact hread.trans (hread.session.ask hdebugs how _)

/-- **Views that are read one after the other** all show the process, although each query changes
the session. -/
theorem OnProcess.refreshAll (h : OnProcess rel p parseFile w gs) (hdebugs : Debugs rel ops p)
    (hfits : ∀ x : View, x.Fits (guestVTable p parseFile how.disasm) (some gs))
    (others : View → List Query) (views : List View) :
    Refreshes rel p parseFile how.disasm gs views w
      (w.refreshAll ops parseFile how others views) := by
  induction views generalizing w with
  | nil => exact ⟨h, rfl, fun _ x _ hx => hx.resolve_left List.not_mem_nil⟩
  | cons x views ih =>
      have hasks := h.asks hdebugs how (others x)
      have hview := hasks.trans (hasks.session.refreshLive hdebugs hfits x)
      exact hview.trans (ih hview.session)

end Refresh

/-! ## What an event does -/

/-- The session that only looks, after a call of the controller. -/
def GuestSession.after {β γ : Type*} (p : Process γ) (parseFile : String → Result FileInfo)
    (how : CoreSession.Setup β) (s : GuestSession γ) :
    ControllerCall (CoreSession β) → GuestSession γ
  | .slot (.control op) =>
    (s.act p parseFile how.disasm how.iteration how.fuel (.control op)).getD s
  | .slot .analyze => (s.act p parseFile how.disasm how.iteration how.fuel .analyze).getD s
  | _ => s

/-- A call that can be made until the process is gone: the worker works while the controller waits
for it, and only `attachToProcess` replaces the session. -/
def CanCall {β γ : Type*} (p : Process γ) (parseFile : String → Result FileInfo)
    (how : CoreSession.Setup β) (w : MainWindow (CoreSession β)) (s : GuestSession γ) :
    ControllerCall (CoreSession β) → Prop
  | .slot (.control op) =>
    s.act p parseFile how.disasm how.iteration how.fuel (.control op) ≠ none
  | .slot .analyze => w.controller.analyzing = true
  | .setSession _ _ => False
  | _ => True

section Steps

variable {β γ : Type*} {rel : β → γ → Prop} {ops : CoreBackend β} {p : Process γ}
  {parseFile : String → Result FileInfo} {how : CoreSession.Setup β} {gs : GuestSession γ}
  {w : MainWindow (CoreSession β)} {others : View → List Query}
  {c : ControllerCall (CoreSession β)} {controller : SessionController (CoreSession β)}

/-- The rows of the analysis that is known can be counted. -/
def KnownCountable (s : GuestSession γ) : Prop :=
  s.known.functions.length < 2 ^ 31 ∧ s.known.xrefs.length < 2 ^ 31

theorem knownCountable_after
    (hp : CountableProcess p parseFile how.disasm how.iteration how.fuel)
    (h : KnownCountable gs) (c : ControllerCall (CoreSession β)) :
    KnownCountable (gs.after p parseFile how c) := by
  have hrun : ∀ r, KnownCountable ((gs.afterRun r).getD gs) := by
    intro r
    cases r <;> exact h
  cases c with
  | setSession s kind => exact h
  | navigateTo addr => exact h
  | slot e =>
      cases e with
      | control op =>
          cases op with
          | stepInto => exact hrun (p.step gs.guest)
          | stepOver => exact hrun (p.step gs.guest)
          | stepOut => exact hrun (p.step gs.guest)
          | cont => exact hrun (p.cont gs.guest)
          | brk => exact h
          | restart => exact h
          | stop => exact h
      | analyze =>
          -- only an analysis makes new lists
          unfold KnownCountable GuestSession.known
          dsimp only [GuestSession.after, GuestSession.act, Option.getD_some]
          split
          · cases hresult : gs.analyzed p parseFile how.disasm how.iteration how.fuel with
            | none => exact ⟨by decide, by decide⟩
            | some result => exact hp.analysis gs result hresult
          · exact ⟨by decide, by decide⟩
      | toggleBreakpoint addr => exact h
      | setBreakpointEnabled addr on => exact h
      | refreshViews => exact h
      | runAnalysis => exact h
      | analysisFinished => exact h

/-- The session after a call is on the process after it. -/
theorem OnProcess.fire (h : OnProcess rel p parseFile w gs) (hdebugs : Debugs rel ops p)
    (hmain : p.KeepsMain) (hc : CanCall p parseFile how w gs c) :
    OnProcess rel p parseFile
      { w with controller := (w.controller.fire (liveVTable ops parseFile how) c).1 }
      (gs.after p parseFile how c) := by
  obtain ⟨s, hsession, hreflects⟩ := h
  have hkeeps : (WindowEvent.call c).Keeps := by
    cases c with
    | setSession s kind => exact hc
    | slot e => trivial
    | navigateTo addr => trivial
  have hcalled : ∀ call gs',
      gs.act p parseFile how.disasm how.iteration how.fuel call = some gs' →
      OnProcess rel p parseFile { w with
        controller.session := called (liveVTable ops parseFile how) (some s) (some call) } gs' :=
    fun call gs' hact => ⟨s.acted ops parseFile how call, iridaCall_live ops parseFile how call s,
      hreflects.acted hdebugs hmain how call hact⟩
  have hfire := @SessionController.session_fire _ (liveVTable ops parseFile how) w.controller c
    hkeeps
  rw [hsession] at hfire
  -- the session behind the call is that behind what the call asks of it
  suffices hafter : OnProcess rel p parseFile { w with
      controller.session := called (liveVTable ops parseFile how) (some s) c.asks }
      (gs.after p parseFile how c) by
    obtain ⟨s', hs', hreflects'⟩ := hafter
    exact ⟨s', hfire.trans hs', hreflects'⟩
  cases c with
  | setSession s kind => exact hc.elim
  | navigateTo addr => exact ⟨s, rfl, hreflects⟩
  | slot e =>
      cases e with
      | control op =>
          obtain ⟨gs', hact⟩ := Option.ne_none_iff_exists'.mp hc
          dsimp only [GuestSession.after]
          rw [hact]
          exact hcalled _ _ hact
      | analyze => exact hcalled .analyze _ rfl
      | toggleBreakpoint addr => exact hcalled (.bpToggle addr) gs rfl
      | setBreakpointEnabled addr on => exact hcalled (.bpSetEnabled addr on) gs rfl
      | refreshViews => exact ⟨s, rfl, hreflects⟩
      | runAnalysis => exact ⟨s, rfl, hreflects⟩
      | analysisFinished => exact ⟨s, rfl, hreflects⟩

/-- A run that leaves the epoch, and after which the process is at a stop, did nothing. -/
theorem afterRun_quiet {r : Ran γ} {gs' : GuestSession γ} (h : gs.afterRun r = some gs')
    (hepoch : gs'.epoch = gs.epoch) (hfresh : gs'.fresh = true) : gs' = gs := by
  cases r with
  | stopped g =>
      obtain rfl := Option.some.inj h
      have hcount : gs.epoch + 1 = gs.epoch := hepoch
      exact absurd hcount (by bv_omega)
  | refused => exact (Option.some.inj h).symm
  | failed g =>
      obtain rfl := Option.some.inj h
      cases hfresh
  | gone => cases h

theorem act_quiet {op : ControlOp} {gs' : GuestSession γ}
    (h : gs.act p parseFile how.disasm how.iteration how.fuel (.control op) = some gs')
    (hepoch : gs'.epoch = gs.epoch) (hfresh : gs'.fresh = true) : gs' = gs := by
  cases op with
  | stepInto => exact afterRun_quiet h hepoch hfresh
  | stepOver => exact afterRun_quiet h hepoch hfresh
  | stepOut => exact afterRun_quiet h hepoch hfresh
  | cont => exact afterRun_quiet h hepoch hfresh
  | brk => exact (Option.some.inj h).symm
  | restart => exact (Option.some.inj h).symm
  | stop => exact (Option.some.inj h).symm

/-- Without a signal the process is as it was, if it is at a stop and no analysis is under way. -/
theorem OnProcess.fire_quiet (h : OnProcess rel p parseFile w gs) (hdebugs : Debugs rel ops p)
    (hmain : p.KeepsMain) (hc : CanCall p parseFile how w gs c)
    (hfire : w.controller.fire (liveVTable ops parseFile how) c = (controller, none))
    (hfresh : (gs.after p parseFile how c).fresh = true) (hidle : controller.analyzing = false) :
    gs.after p parseFile how c = gs ∧ w.controller.analyzing = false ∧
      controller.kind = w.controller.kind := by
  have hnext := h.fire hdebugs hmain hc
  cases c with
  | setSession s kind => exact hc.elim
  | navigateTo addr => cases hfire
  | slot e =>
      cases e with
      | control op =>
          obtain ⟨gs', hact⟩ := Option.ne_none_iff_exists'.mp hc
          have hafter : gs.after p parseFile how (.slot (.control op)) = gs' := by
            dsimp only [GuestSession.after]
            rw [hact, Option.getD_some]
          rw [hafter] at hfresh hnext ⊢
          dsimp only [SessionController.fire] at hfire hnext
          obtain ⟨rfl, hsignal⟩ := Prod.mk.inj hfire
          refine ⟨act_quiet hact ?_ hfresh, hidle, rfl⟩
          -- both epochs are those of the session
          obtain ⟨s, hsession, hreflects⟩ := h
          obtain ⟨s', hsession', hreflects'⟩ := hnext
          by_contra hne
          rw [if_pos] at hsignal
          · cases hsignal
          · dsimp only [SessionController.epoch] at hsession' ⊢
            rw [hsession', hsession]
            show s'.target.epoch ≠ s.target.epoch
            rwa [hreflects.epoch, hreflects'.epoch]
      | toggleBreakpoint addr => cases hfire
      | setBreakpointEnabled addr on => cases hfire
      | refreshViews => cases hfire
      | runAnalysis =>
          dsimp only [SessionController.fire] at hfire
          split at hfire
          · obtain ⟨rfl, -⟩ := Prod.mk.inj hfire
            exact ⟨rfl, hidle, rfl⟩
          · obtain ⟨rfl, -⟩ := Prod.mk.inj hfire
            cases hidle
      | analyze =>
          obtain ⟨rfl, -⟩ := Prod.mk.inj hfire
          have hbusy : w.controller.analyzing = true := hc
          exact absurd hidle (by simp [SessionController.callSession, hbusy])
      | analysisFinished =>
          dsimp only [SessionController.fire] at hfire
          split at hfire
          · cases hfire
          · obtain ⟨rfl, -⟩ := Prod.mk.inj hfire
            exact ⟨rfl, hidle, rfl⟩

theorem after_navigates {addr : U64}
    (hfire : w.controller.fire (liveVTable ops parseFile how) c =
      (controller, some (.navigationRequested addr))) :
    gs.after p parseFile how c = gs := by
  cases c with
  | setSession s kind => rfl
  | navigateTo addr => rfl
  | slot e =>
      cases e <;> dsimp only [SessionController.fire] at hfire
      case control op => split at hfire <;> cases hfire
      case analyze => cases hfire
      all_goals rfl

/-- The session is on the process, and at a stop and outside an analysis every view shows it. -/
structure Tracks (rel : β → γ → Prop) (p : Process γ) (parseFile : String → Result FileInfo)
    (disasm : Disassembler) (w : MainWindow (CoreSession β)) (gs : GuestSession γ) : Prop where
  session : OnProcess rel p parseFile w gs
  known : KnownCountable gs
  shows : gs.fresh = true → w.controller.analyzing = false → ∀ x, gs.knows x = true →
    w.ShowsProcess p parseFile disasm gs x

theorem Tracks.of_refreshes {views : List View} {w' : MainWindow (CoreSession β)}
    (h : Refreshes rel p parseFile how.disasm gs views w w') (hknown : KnownCountable gs)
    (hshows : gs.fresh = true → w.controller.analyzing = false → ∀ x, gs.knows x = true →
      x ∈ views ∨ w.ShowsProcess p parseFile how.disasm gs x) :
    Tracks rel p parseFile how.disasm w' gs where
  session := h.session
  known := hknown
  shows hfresh hidle x hknows :=
    h.shows hfresh x hknows (hshows hfresh (h.analyzing ▸ hidle) x hknows)

theorem OnProcess.tracks_stateChanged (h : OnProcess rel p parseFile w gs)
    (hdebugs : Debugs rel ops p)
    (hp : CountableProcess p parseFile how.disasm how.iteration how.fuel)
    (hknown : KnownCountable gs) (others : View → List Query) :
    Tracks rel p parseFile how.disasm
      (w.receiveLive ops parseFile how others .stateChanged) gs :=
  .of_refreshes (h.refreshAll hdebugs (fits_of_countableProcess hp hknown) others connected) hknown
    fun _ _ x _ => Or.inl (mem_connected x)

/-- The disassembly and the cross references are read again from another address. -/
theorem Tracks.navigationRequested (h : Tracks rel p parseFile how.disasm w gs)
    (hdebugs : Debugs rel ops p)
    (hp : CountableProcess p parseFile how.disasm how.iteration how.fuel)
    (others : View → List Query) (addr : U64) :
    Tracks rel p parseFile how.disasm
      (w.receiveLive ops parseFile how others (.navigationRequested addr)) gs := by
  have hfits := @fits_of_countableProcess γ p parseFile how.disasm how.iteration how.fuel gs hp
    h.known
  -- first the disassembly is read again from the address, where the panels stay as they were
  have hbased : Tracks rel p parseFile how.disasm
      (MainWindow.refreshAll ops parseFile how others
        { w with disassembly := { w.disassembly with base := addr } } [.disassembly]) gs := by
    have hbase : OnProcess rel p parseFile
        { w with disassembly := { w.disassembly with base := addr } } gs := h.session
    refine .of_refreshes (hbase.refreshAll hdebugs hfits others [.disassembly]) h.known
      fun hfresh hidle x hknows => ?_
    cases x with
    | disassembly => exact Or.inl (List.mem_singleton.mpr rfl)
    | panel panel =>
        have hshows := h.shows hfresh hidle (.panel panel) hknows
        exact Or.inr hshows
  -- then the cross references, the only panel that shows what leads to an address
  have htarget := hbased.session
  refine .of_refreshes (OnProcess.refreshAll (w := { MainWindow.refreshAll ops parseFile how others
    { w with disassembly := { w.disassembly with base := addr } } [.disassembly] with
      target := addr }) htarget hdebugs hfits others [.panel .xrefs]) h.known
    fun hfresh hidle x hknows => ?_
  have hshows := hbased.shows hfresh hidle x hknows
  cases x with
  | disassembly => exact Or.inr hshows
  | panel panel =>
      by_cases hpanel : panel = .xrefs
      · exact Or.inl (hpanel ▸ List.mem_singleton.mpr rfl)
      · right
        show TablePanel.Shows _ _
        rw [panelRows_target hpanel _ addr]
        exact hshows

theorem Tracks.perform (h : Tracks rel p parseFile how.disasm w gs) (hdebugs : Debugs rel ops p)
    (hmain : p.KeepsMain)
    (hp : CountableProcess p parseFile how.disasm how.iteration how.fuel)
    (others : View → List Query) (hc : CanCall p parseFile how w gs c) :
    Tracks rel p parseFile how.disasm (w.performLive ops parseFile how others c)
      (gs.after p parseFile how c) := by
  have hsession := h.session.fire hdebugs hmain hc
  have hknown := knownCountable_after hp h.known c
  unfold MainWindow.performLive
  rcases hfire : w.controller.fire (liveVTable ops parseFile how) c with
    ⟨controller, _ | (_ | addr)⟩ <;> rw [hfire] at hsession <;> dsimp only
  -- no signal: nothing is read again, and nothing has changed that is shown
  · refine ⟨hsession, hknown, fun hfresh hidle x hknows => ?_⟩
    obtain ⟨hsame, hbefore, hkind⟩ :=
      h.session.fire_quiet hdebugs hmain hc hfire hfresh hidle
    rw [hsame] at hfresh hknows ⊢
    have hshows := h.shows hfresh hbefore x hknows
    cases x with
    | panel panel => exact hshows
    | disassembly =>
        unfold MainWindow.ShowsProcess SessionController.isLive at hshows ⊢
        rwa [hkind]
  · exact hsession.tracks_stateChanged hdebugs hp hknown others
  · obtain rfl := SessionController.fire_navigates hfire
    rw [after_navigates hfire]
    exact h.navigationRequested hdebugs hp others addr

end Steps

/-! ## Runs -/

/-- What happens to the window: its events and the queries of other views, with what these ask
meanwhile, and that a process is attached to. -/
inductive ProcessEvent (β γ : Type*)
  | window (e : WindowEvent (CoreSession β)) (others : View → List Query)
  | ask (q : Query)
  | attach (b : β) (g : γ) (others : View → List Query)

/-- A process can be attached to: no analysis is under way, whose session would be freed, and the
backend has taken hold of the process. -/
structure CanAttach {β γ σ : Type*} (rel : β → γ → Prop) (ops : CoreBackend β) (p : Process γ)
    (w : MainWindow σ) (b : β) (g : γ) : Prop where
  idle : w.controller.analyzing = false
  attached : Attached rel ops p b g

section Runs

variable {β γ : Type*} (rel : β → γ → Prop) (ops : CoreBackend β) (p : Process γ)
  (parseFile : String → Result FileInfo) (how : CoreSession.Setup β)

/-- An event, for the window and for the session that only looks. -/
def trackStep (state : MainWindow (CoreSession β) × GuestSession γ) :
    ProcessEvent β γ → MainWindow (CoreSession β) × GuestSession γ
  | .window (.call c) others =>
    (state.1.stepLive ops parseFile how others (.call c), state.2.after p parseFile how c)
  | .window e others => (state.1.stepLive ops parseFile how others e, state.2)
  | .ask q => (state.1.ask ops parseFile how q, state.2)
  | .attach b g others =>
    match state.1.attachToProcess ops parseFile how others b with
    | none => state
    | some w => (w, { guest := g })

/-- What can happen until the process is gone. -/
def HappensLive (state : MainWindow (CoreSession β) × GuestSession γ) : ProcessEvent β γ → Prop
  | .window (.call c) _ => CanCall p parseFile how state.1 state.2 c
  | .attach b g _ => CanAttach rel ops p state.1 b g
  | _ => True

variable {rel ops p parseFile how} {w : MainWindow (CoreSession β)} {gs : GuestSession γ}

/-- A window that attaches, whatever it has shown before. -/
theorem CanAttach.tracks {σ : Type*} {w : MainWindow σ} {b : β} {g : γ}
    (h : CanAttach rel ops p w b g) (hdebugs : Debugs rel ops p)
    (hp : CountableProcess p parseFile how.disasm how.iteration how.fuel)
    (others : View → List Query) :
    ∃ w', w.attachToProcess ops parseFile how others b = some w' ∧
      Tracks rel p parseFile how.disasm w' { guest := g } := by
  obtain ⟨t, hattach, hreflects⟩ := h.attached.attach parseFile
  unfold MainWindow.attachToProcess
  rw [hattach]
  refine ⟨_, rfl, ?_⟩
  have hknown : KnownCountable ({ guest := g } : GuestSession γ) :=
    ⟨(by decide : 0 < 2 ^ 31), (by decide : 0 < 2 ^ 31)⟩
  refine OnProcess.tracks_stateChanged ?_ hdebugs hp hknown others
  exact ⟨_, rfl, hreflects⟩

theorem Tracks.step (h : Tracks rel p parseFile how.disasm w gs) (hdebugs : Debugs rel ops p)
    (hmain : p.KeepsMain)
    (hp : CountableProcess p parseFile how.disasm how.iteration how.fuel) {e : ProcessEvent β γ}
    (he : HappensLive rel ops p parseFile how (w, gs) e) :
    Tracks rel p parseFile how.disasm (trackStep ops p parseFile how (w, gs) e).1
      (trackStep ops p parseFile how (w, gs) e).2 := by
  -- whatever the event does is a call of the controller, a query of the views or an attach
  cases e with
  | window e others =>
      cases e with
      | call c => exact h.perform hdebugs hmain hp others he
      | cellDoubleClicked panel row =>
          dsimp only [trackStep, MainWindow.stepLive]
          split
          · exact h
          · next addr _ => exact h.perform hdebugs hmain hp others (c := .navigateTo addr) trivial
      | cellClicked row col =>
          dsimp only [trackStep, MainWindow.stepLive]
          split
          · exact h
          · next addr _ =>
              exact h.perform hdebugs hmain hp others (c := .slot (.toggleBreakpoint addr)) trivial
      | selectLinear =>
          have hread := h.session.refreshAll hdebugs (fits_of_countableProcess hp h.known) others
            [.disassembly]
          exact .of_refreshes hread h.known fun hfresh hidle x hknows =>
            Or.inr (h.shows hfresh hidle x hknows)
  | ask q =>
      exact .of_refreshes (h.session.ask hdebugs how q) h.known fun hfresh hidle x hknows =>
        Or.inr (h.shows hfresh hidle x hknows)
  | attach b g others =>
      have hattach : CanAttach rel ops p w b g := he
      obtain ⟨w', hw', htracks⟩ := hattach.tracks hdebugs hp others
      dsimp only [trackStep]
      rw [hw']
      exact htracks

theorem Tracks.run (h : Tracks rel p parseFile how.disasm w gs) (hdebugs : Debugs rel ops p)
    (hmain : p.KeepsMain)
    (hp : CountableProcess p parseFile how.disasm how.iteration how.fuel)
    {events : List (ProcessEvent β γ)}
    (hevents : Along (trackStep ops p parseFile how) (HappensLive rel ops p parseFile how) (w, gs)
      events) :
    Tracks rel p parseFile how.disasm (events.foldl (trackStep ops p parseFile how) (w, gs)).1
      (events.foldl (trackStep ops p parseFile how) (w, gs)).2 :=
  @Along.invariant _ _ (trackStep ops p parseFile how)
    (fun state => Tracks rel p parseFile how.disasm state.1 state.2)
    (HappensLive rel ops p parseFile how) (w, gs) events
    (fun _ _ hstate he => hstate.step hdebugs hmain hp he) hevents h events
    (List.prefix_refl events)

end Runs

/-! ## A file, and then the process that counts -/

end Irida.Gui
