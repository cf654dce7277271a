import Irida.Gui.DisassemblyPanel

/-!
# The main window

`MainWindow` owns the controller and the panels.  The panels do not watch the session: they read it
again when the controller emits `stateChanged` or `navigationRequested`, and a click on a row calls
the controller again.

`upToDate_run` says when no panel is stale.  Two things can change a session without a signal.  The
analysis does, on its worker, and a signal follows when it is done: until then nothing is claimed.
A step or a run does if it leaves the epoch as it was, and then it must leave what the panel shows
as it was.
-/

namespace Irida.Gui

open Api Session GuardedRuns

/-- `DebugController`, with the session itself in the place of the pointer to it. -/
structure SessionController (σ : Type*) where
  session : Option σ
  kind : SessionKind
  analyzing : Bool := false

/-- The signals of the controller that panels are connected to. -/
inductive Signal
  | stateChanged
  | navigationRequested (addr : U64)
  deriving DecidableEq, Repr

/-- What is asked of the controller. -/
inductive ControllerCall (σ : Type*)
  | slot (e : ControllerEvent)
  | setSession (s : Option σ) (kind : SessionKind)
  | navigateTo (addr : U64)

namespace SessionController

variable {σ : Type*} (vt : ViewVTable σ) (c : SessionController σ)

/-- `isLive`. -/
def isLive : Bool :=
  c.kind = .native

/-- A call on the session. -/
def callSession (call : SessionCall) : SessionController σ :=
  { c with session := iridaCall vt.toBackendVTable call c.session }

/-- `irida_state_epoch` of the session. -/
def epoch : U64 :=
  iridaStateEpoch vt.toBackendVTable c.session

/-- A call of the controller, and the signal that it emits. -/
def fire : ControllerCall σ → SessionController σ × Option Signal
  | .slot (.control op) =>
    let after := c.callSession vt (.control op)
    -- `afterOp`
    (after, if after.epoch vt ≠ c.epoch vt then some .stateChanged else none)
  | .slot (.toggleBreakpoint addr) => (c.callSession vt (.bpToggle addr), some .stateChanged)
  | .slot (.setBreakpointEnabled addr on) =>
    (c.callSession vt (.bpSetEnabled addr on), some .stateChanged)
  | .slot .refreshViews => (c, some .stateChanged)
  | .slot .runAnalysis =>
    if c.analyzing = true ∨ c.session.isNone then (c, none)
    else ({ c with analyzing := true }, none)
  | .slot .analyze => (c.callSession vt .analyze, none)
  | .slot .analysisFinished =>
    if c.analyzing = true then ({ c with analyzing := false }, some .stateChanged) else (c, none)
  | .setSession s kind => ({ c with session := s, kind := kind }, some .stateChanged)
  | .navigateTo addr => (c, some (.navigationRequested addr))

end SessionController

/-- `MainWindow`: the controller, the panels that list rows, `target_` of `XrefsPanel`, and the
disassembly. -/
structure MainWindow (σ : Type*) where
  controller : SessionController σ
  panels : (p : PanelName) → TablePanel p.columns := fun _ => {}
  target : U64 := 0
  disassembly : DisassemblyPanel

/-- What happens to the window: calls of the controller, clicks on rows, and the choice of the
linear form in the code view. -/
inductive WindowEvent (σ : Type*)
  | call (c : ControllerCall σ)
  | cellDoubleClicked (p : PanelName) (row : ℤ)
  | cellClicked (row col : ℤ)
  | selectLinear

namespace MainWindow

variable {σ : Type*} (vt : ViewVTable σ) (w : MainWindow σ)

/-- `refresh` of the disassembly. -/
def refreshDisassembly : MainWindow σ :=
  { w with disassembly := w.disassembly.refresh vt w.controller.isLive w.controller.session }

/-- The panels receive a signal. -/
def receive : Signal → MainWindow σ
  | .stateChanged =>
    { w with
      panels := fun p => (w.panels p).refresh (panelRows vt w.controller.session w.target p)
      disassembly := w.disassembly.refresh vt w.controller.isLive w.controller.session }
  | .navigationRequested addr =>
    { w with
      target := addr
      -- `XrefsPanel::setTarget`
      panels := Function.update w.panels .xrefs
        ((w.panels .xrefs).refresh (panelRows vt w.controller.session addr .xrefs))
      disassembly := w.disassembly.setBase vt w.controller.isLive w.controller.session addr }

/-- A call of the controller, and what the panels make of its signal. -/
def perform (c : ControllerCall σ) : MainWindow σ :=
  let fired := w.controller.fire vt c
  let w := { w with controller := fired.1 }
  match fired.2 with
  | none => w
  | some signal => w.receive vt signal

/-- An event. -/
def step : WindowEvent σ → MainWindow σ
  | .call c => w.perform vt c
  | .cellDoubleClicked p row =>
    match (w.panels p).onDoubleClicked row with
    | none => w
    | some addr => w.perform vt (.navigateTo addr)
  | .cellClicked row col =>
    match w.disassembly.onCellClicked row col with
    | none => w
    | some addr => w.perform vt (.slot (.toggleBreakpoint addr))
  | .selectLinear => w.refreshDisassembly vt

/-- The constructor, up to the timer that loads the panels. -/
def constructed (s : Option σ) (kind : SessionKind) : MainWindow σ :=
  let controller : SessionController σ := { session := s, kind := kind }
  let w : MainWindow σ :=
    { controller := controller, disassembly := .opened controller.isLive }
  w.refreshDisassembly vt

/-- A window whose timer has fired. -/
def opened (s : Option σ) (kind : SessionKind) (autoAnalyze : Bool) : MainWindow σ :=
  let w := (constructed vt s kind).perform vt (.slot .refreshViews)
  if autoAnalyze then w.perform vt (.slot .runAnalysis) else w

end MainWindow

/-! ## Views that are up to date -/

/-- What the window shows of the session. -/
inductive View
  | panel (p : PanelName)
  | disassembly
  deriving DecidableEq, Repr

section Views

variable {σ : Type*} (vt : ViewVTable σ)

/-- The rows that the session answers with can be counted by an `int`. -/
def View.Fits (s : Option σ) : View → Prop
  | .panel p => ∀ target, (panelRows vt s target p).length < 2 ^ 31
  | .disassembly => ∀ addr, (iridaDisasm vt s addr DisassemblyPanel.rowLimit).length < 2 ^ 31

/-- Two sessions look the same in a view. -/
def View.Same (s s' : Option σ) : View → Prop
  | .panel p => ∀ target, panelRows vt s target p = panelRows vt s' target p
  | .disassembly =>
    (∀ addr, iridaDisasm vt s addr DisassemblyPanel.rowLimit =
        iridaDisasm vt s' addr DisassemblyPanel.rowLimit) ∧
      iridaPc vt s = iridaPc vt s' ∧ iridaBreakpoints vt s = iridaBreakpoints vt s'

/-- The view shows the session as it is. -/
def MainWindow.UpToDate (w : MainWindow σ) : View → Prop
  | .panel p => (w.panels p).Shows (panelRows vt w.controller.session w.target p)
  | .disassembly => w.disassembly.Shows w.controller.isLive
      (w.disassembly.insns vt w.controller.session) (iridaPc vt w.controller.session)
      (iridaBreakpoints vt w.controller.session)

/-- What a call has to observe.  A step or a run that leaves the epoch leaves the view, the worker
works while the controller waits for it, and the session that it works on is not replaced. -/
def SessionController.Allows (x : View) (c : SessionController σ) : ControllerCall σ → Prop
  | .slot (.control op) =>
    (c.callSession vt (.control op)).epoch vt = c.epoch vt →
      x.Same vt c.session (c.callSession vt (.control op)).session
  | .slot .analyze => c.analyzing = true
  | .setSession _ _ => c.analyzing = false
  | _ => True

/-- An event is one that may happen, and leaves rows that can be counted. -/
structure MainWindow.Allows (x : View) (w : MainWindow σ) (e : WindowEvent σ) : Prop where
  call : ∀ c, e = .call c → w.controller.Allows vt x c
  fits : x.Fits vt (w.step vt e).controller.session

end Views

/-! ## What an event does to the session -/

section Session

variable {σ : Type*} {vt : ViewVTable σ} {w : MainWindow σ} {c : SessionController σ}

/-- The call of the session that a call of the controller comes to. -/
def ControllerCall.asks : ControllerCall σ → Option SessionCall
  | .slot (.control op) => some (.control op)
  | .slot (.toggleBreakpoint addr) => some (.bpToggle addr)
  | .slot (.setBreakpointEnabled addr on) => some (.bpSetEnabled addr on)
  | .slot .analyze => some .analyze
  | _ => none

/-- The call of the session that an event comes to. -/
def MainWindow.asks (w : MainWindow σ) : WindowEvent σ → Option SessionCall
  | .call c => c.asks
  | .cellClicked row col => (w.disassembly.onCellClicked row col).map .bpToggle
  | _ => none

/-- The session is not replaced. -/
def WindowEvent.Keeps : WindowEvent σ → Prop
  | .call (.setSession _ _) => False
  | _ => True

/-- The session after a call, if there is one. -/
def called (vt : ViewVTable σ) (s : Option σ) : Option SessionCall → Option σ
  | none => s
  | some call => iridaCall vt.toBackendVTable call s

theorem SessionController.session_fire {call : ControllerCall σ}
    (hkeeps : (WindowEvent.call call).Keeps) :
    (c.fire vt call).1.session = called vt c.session call.asks := by
  cases call with
  | setSession s kind => exact hkeeps.elim
  | navigateTo addr => rfl
  | slot e =>
      cases e
      case runAnalysis =>
        dsimp only [SessionController.fire]
        split <;> rfl
      case analysisFinished =>
        dsimp only [SessionController.fire]
        split <;> rfl
      all_goals rfl

namespace MainWindow

@[simp] theorem controller_receive (w : MainWindow σ) (signal : Signal) :
    (w.receive vt signal).controller = w.controller := by
  cases signal <;> rfl

@[simp] theorem controller_perform (w : MainWindow σ) (call : ControllerCall σ) :
    (w.perform vt call).controller = (w.controller.fire vt call).1 := by
  unfold perform
  dsimp only
  split
  · rfl
  · exact controller_receive _ _

/-- **The session after an event.** -/
theorem session_step {e : WindowEvent σ} (hkeeps : e.Keeps) :
    (w.step vt e).controller.session = called vt w.controller.session (w.asks e) := by
  cases e with
  | call c =>
      rw [step, controller_perform]
      exact SessionController.session_fire hkeeps
  | cellDoubleClicked p row =>
      dsimp only [step, asks]
      split
      · rfl
      · rw [controller_perform]
        exact SessionController.session_fire trivial
  | cellClicked row col =>
      dsimp only [step, asks]
      split
      · next hclick =>
          rw [hclick]
          rfl
      · next addr hclick =>
          rw [hclick, controller_perform]
          exact SessionController.session_fire trivial
  | selectLinear => rfl

/-- The analysis is started on the session as it is. -/
theorem session_runAnalysis (w : MainWindow σ) :
    (w.perform vt (.slot .runAnalysis)).controller.session = w.controller.session := by
  rw [controller_perform]
  exact SessionController.session_fire trivial

theorem session_opened (vt : ViewVTable σ) (s : Option σ) (kind : SessionKind)
    (autoAnalyze : Bool) : (opened vt s kind autoAnalyze).controller.session = s := by
  unfold opened
  dsimp only
  split
  · rw [session_runAnalysis]
    rfl
  · rfl

end MainWindow

end Session

/-! ## What an event does to a view -/

section Steps

variable {σ : Type*} {vt : ViewVTable σ} {x : View} {w : MainWindow σ}
  {c c' : SessionController σ} {call : ControllerCall σ}

/-- Without a signal the view stays as it was, or the analysis is under way. -/
theorem SessionController.fire_quiet (hallows : c.Allows vt x call)
    (hfire : c.fire vt call = (c', none)) (hidle : c'.analyzing = false) :
    c.analyzing = false ∧ c'.kind = c.kind ∧ x.Same vt c.session c'.session := by
  have hsame : ∀ s, x.Same vt s s := by
    intro s
    cases x with
    | panel p => exact fun _ => rfl
    | disassembly => exact ⟨fun _ => rfl, rfl, rfl⟩
  -- a call that says nothing: one of the guards has stopped it, or the epoch stayed
  cases call with
  | slot e =>
      cases e with
      | control op =>
          dsimp only [SessionController.fire] at hfire
          obtain ⟨rfl, hepoch⟩ := Prod.mk.inj hfire
          refine ⟨hidle, rfl, hallows ?_⟩
          by_contra hne
          rw [if_pos hne] at hepoch
          cases hepoch
      | toggleBreakpoint addr => cases hfire
      | setBreakpointEnabled addr on => cases hfire
      | refreshViews => cases hfire
      | runAnalysis =>
          dsimp only [SessionController.fire] at hfire
          split at hfire
          · obtain ⟨rfl, -⟩ := Prod.mk.inj hfire
            exact ⟨hidle, rfl, hsame _⟩
          · obtain ⟨rfl, -⟩ := Prod.mk.inj hfire
            cases hidle
      | analyze =>
          obtain ⟨rfl, -⟩ := Prod.mk.inj hfire
          have hbusy : c.analyzing = true := hallows
          exact absurd hidle (by simp [SessionController.callSession, hbusy])
      | analysisFinished =>
          dsimp only [SessionController.fire] at hfire
          split at hfire
          · cases hfire
          · obtain ⟨rfl, -⟩ := Prod.mk.inj hfire
            exact ⟨hidle, rfl, hsame _⟩
  | setSession s kind => cases hfire
  | navigateTo addr => cases hfire

theorem SessionController.fire_navigates {addr : U64}
    (hfire : c.fire vt call = (c', some (.navigationRequested addr))) : c' = c := by
  cases call with
  | slot e =>
      cases e <;> dsimp only [SessionController.fire] at hfire
      case control op =>
        split at hfire <;> cases hfire
      case runAnalysis => split at hfire <;> cases hfire
      case analysisFinished => split at hfire <;> cases hfire
      all_goals cases hfire
  | setSession s kind => cases hfire
  | navigateTo a => exact (Prod.mk.inj hfire).1.symm

theorem panelRows_target {p : PanelName} (hp : p ≠ .xrefs) (s : Option σ) (target target' : U64) :
    panelRows vt s target p = panelRows vt s target' p := by
  cases p
  case xrefs => exact absurd rfl hp
  all_goals rfl

namespace MainWindow

theorem upToDate_stateChanged (hfits : x.Fits vt w.controller.session) :
    (w.receive vt .stateChanged).UpToDate vt x := by
  cases x with
  | panel p => exact TablePanel.shows_refresh _ (hfits w.target)
  | disassembly => exact DisassemblyPanel.shows_refresh _ w.disassembly (hfits _)

theorem upToDate_navigationRequested (hfits : x.Fits vt w.controller.session) (addr : U64)
    (h : w.UpToDate vt x) : (w.receive vt (.navigationRequested addr)).UpToDate vt x := by
  cases x with
  | panel p =>
      unfold UpToDate
      by_cases hp : p = .xrefs
      · subst hp
        simp only [receive, Function.update_self]
        exact TablePanel.shows_refresh _ (hfits addr)
      · simp only [receive, Function.update_of_ne hp]
        rw [panelRows_target hp _ addr w.target]
        exact h
  | disassembly =>
      exact DisassemblyPanel.shows_refresh _ { w.disassembly with base := addr } (hfits _)

theorem upToDate_refreshDisassembly (hfits : x.Fits vt w.controller.session)
    (h : w.UpToDate vt x) : (w.refreshDisassembly vt).UpToDate vt x := by
  cases x with
  | panel p => exact h
  | disassembly => exact DisassemblyPanel.shows_refresh _ w.disassembly (hfits _)

/-- A view is up to date whatever becomes of the session, if it looks the same. -/
theorem UpToDate.of_same (h : w.UpToDate vt x) (hkind : c.kind = w.controller.kind)
    (hsame : x.Same vt w.controller.session c.session) :
    ({ w with controller := c } : MainWindow σ).UpToDate vt x := by
  cases x with
  | panel p =>
      show (w.panels p).Shows (panelRows vt c.session w.target p)
      rw [← hsame w.target]
      exact h
  | disassembly =>
      obtain ⟨hinsns, hpc, hbps⟩ := hsame
      have hlive : c.isLive = w.controller.isLive := by
        rw [SessionController.isLive, hkind, SessionController.isLive]
      show w.disassembly.Shows c.isLive (w.disassembly.insns vt c.session) (iridaPc vt c.session)
        (iridaBreakpoints vt c.session)
      rw [hlive, DisassemblyPanel.insns, ← hinsns, ← hpc, ← hbps]
      exact h

/-- The view is up to date, or the analysis is under way. -/
def Settled (vt : ViewVTable σ) (x : View) (w : MainWindow σ) : Prop :=
  w.controller.analyzing = false → w.UpToDate vt x

theorem Settled.perform (h : w.Settled vt x) (hallows : w.controller.Allows vt x call)
    (hfits : x.Fits vt (w.perform vt call).controller.session) :
    (w.perform vt call).Settled vt x := by
  rw [controller_perform] at hfits
  unfold MainWindow.perform
  cases hfire : w.controller.fire vt call with
  | mk c signal =>
      rw [hfire] at hfits
      cases signal with
      | none =>
          intro hidle
          obtain ⟨hbefore, hkind, hsame⟩ := SessionController.fire_quiet hallows hfire hidle
          exact (h hbefore).of_same hkind hsame
      | some signal =>
          cases signal with
          | stateChanged => exact fun _ => upToDate_stateChanged hfits
          | navigationRequested addr =>
              obtain rfl := SessionController.fire_navigates hfire
              exact fun hidle => upToDate_navigationRequested hfits addr (h hidle)

theorem Settled.step {e : WindowEvent σ} (h : w.Settled vt x) (he : w.Allows vt x e) :
    (w.step vt e).Settled vt x := by
  have hfits := he.fits
  cases e with
  | call c => exact h.perform (he.call c rfl) hfits
  | cellDoubleClicked p row =>
      dsimp only [MainWindow.step] at hfits ⊢
      cases hclick : (w.panels p).onDoubleClicked row with
      | none => exact h
      | some addr =>
          rw [hclick] at hfits
          exact h.perform trivial hfits
  | cellClicked row col =>
      dsimp only [MainWindow.step] at hfits ⊢
      cases hclick : w.disassembly.onCellClicked row col with
      | none => exact h
      | some addr =>
          rw [hclick] at hfits
          exact h.perform trivial hfits
  | selectLinear => exact fun hidle => upToDate_refreshDisassembly hfits (h hidle)

/-- The window that the timer has filled. -/
theorem settled_opened (s : Option σ) (kind : SessionKind) (autoAnalyze : Bool)
    (hfits : x.Fits vt s) : (opened vt s kind autoAnalyze).Settled vt x := by
  have hloaded : ((constructed vt s kind).perform vt (.slot .refreshViews)).Settled vt x :=
    fun _ => upToDate_stateChanged hfits
  unfold opened
  split
  · apply hloaded.perform (show SessionController.Allows vt x _ (.slot .runAnalysis) from trivial)
    rw [session_runAnalysis, controller_perform]
    exact hfits
  · exact hloaded

/-- **No view is stale** in any state of a run of allowed events, but while the analysis is under
way. -/
theorem upToDate_run (s : Option σ) (kind : SessionKind) (autoAnalyze : Bool)
    (hfits : x.Fits vt s) {events : List (WindowEvent σ)}
    (h : Along (step vt) (Allows vt x) (opened vt s kind autoAnalyze) events) :
    ∀ made, made <+: events →
      (made.foldl (step vt) (opened vt s kind autoAnalyze)).Settled vt x :=
  h.invariant (fun _ _ hw he => hw.step he) (settled_opened s kind autoAnalyze hfits)

end MainWindow

end Steps

end Irida.Gui
