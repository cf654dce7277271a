import Irida.Gui.LiveViews
import Irida.Gui.MainWindow

/-!
# A window on a session of the core

`MainWindow` takes it that a session stays what it is while the panels read it.  A session of
`capi_target.cpp` does not: each query may read pages into the cache or parse the file of the main
module.  Here the window is followed together with what its queries make of the session, view after
view in the order in which they are connected to the controller.

The code view, the byte map and the registers ask the session, too, at times that depend on what
they show.  `others` says what they ask before each of the views that are modelled, and may be
anything.

The window starts on a file, and comes to such a session by `attachToProcess`.
-/

namespace Irida.Gui

open Api Binfmt Session

section

variable {β : Type*} (ops : CoreBackend β) (parseFile : String → Result FileInfo)
  (how : CoreSession.Setup β)

/-- `kCoreVTable`.  The queries are here with what they answer; what they leave of the session is in
`CoreSession.query`. -/
def liveVTable : ViewVTable (CoreSession β) where
  registers := some fun s => coreRegisters s.target
  modules := some fun s => (s.listRows ops.modules).1
  maps := some fun s => (s.listRows ops.maps).1
  threads := some fun s => (s.listRows ops.threads).1
  disasm := some fun s addr count => (s.coreDisasm ops parseFile how.disasm addr count).1
  pc := some fun s => (s.target.state.registers.get "rip").getD 0
  stateEpoch := some fun s => s.target.epoch
  stepInto := some (CoreSession.acted ops parseFile how (.control .stepInto))
  stepOver := some (CoreSession.acted ops parseFile how (.control .stepOver))
  stepOut := some (CoreSession.acted ops parseFile how (.control .stepOut))
  cont := some (CoreSession.acted ops parseFile how (.control .cont))
  brk := some (CoreSession.acted ops parseFile how (.control .brk))
  restart := some (CoreSession.acted ops parseFile how (.control .restart))
  stop := some (CoreSession.acted ops parseFile how (.control .stop))
  breakpoints := some fun _ => []
  bpToggle := some fun addr => CoreSession.acted ops parseFile how (.bpToggle addr)
  bpSetEnabled := some fun addr on => CoreSession.acted ops parseFile how (.bpSetEnabled addr on)
  backtrace := some fun s => (s.coreBacktrace ops).1
  sections := some fun s => (s.fileRows ops parseFile sectionRows).1
  imports := some fun s => (s.fileRows ops parseFile importRows).1
  getExports := some fun s => (s.fileRows ops parseFile exportRows).1
  symbols := some fun s => (s.fileRows ops parseFile symbolRows).1
  strings := some fun s => (s.coreStrings ops).1
  analyze := some (CoreSession.acted ops parseFile how .analyze)
  functions := some fun s => functions s.analysis
  xrefsTo := some fun s addr => xrefRows s.analysis addr

theorem iridaCall_live (call : SessionCall) (s : CoreSession β) :
    iridaCall (liveVTable ops parseFile how).toBackendVTable call (some s) =
      some (s.acted ops parseFile how call) := by
  rcases call with op | addr | ⟨addr, on⟩ | -
  · cases op <;> rfl
  · rfl
  · rfl
  · rfl

/-- What a panel asks. -/
def PanelName.query (target : U64) : PanelName → Query
  | .modules => .modules
  | .breakpoints => .breakpoints
  | .threads => .threads
  | .memoryMap => .maps
  | .backtrace => .backtrace
  | .sections => .sections
  | .imports => .imports
  | .exports => .getExports
  | .symbols => .symbols
  | .strings => .strings
  | .functions => .functions
  | .xrefs => .xrefsTo target

/-- The views that are modelled, in the order in which they are connected. -/
def connected : List View :=
  [.disassembly, .panel .modules, .panel .breakpoints, .panel .threads, .panel .memoryMap,
    .panel .backtrace, .panel .sections, .panel .imports, .panel .exports, .panel .symbols,
    .panel .strings, .panel .functions, .panel .xrefs]

theorem mem_connected (x : View) : x ∈ connected := by
  cases x with
  | disassembly => decide
  | panel p => cases p <;> decide

namespace MainWindow

variable (others : View → List Query) (w : MainWindow (CoreSession β))

/-- A query, with what it leaves of the session. -/
def ask (q : Query) : MainWindow (CoreSession β) :=
  { w with
    controller.session := w.controller.session.map fun s =>
      (s.query ops parseFile how.disasm q).2 }

/-- The address from which the disassembly is asked for. -/
def start : U64 :=
  if w.disassembly.base ≠ 0 then w.disassembly.base
  else iridaPc (liveVTable ops parseFile how) w.controller.session

/-- `refresh` of a view. -/
def refreshLive : View → MainWindow (CoreSession β)
  | .panel p =>
    let rows := panelRows (liveVTable ops parseFile how) w.controller.session w.target p
    ask ops parseFile how
      { w with panels := Function.update w.panels p ((w.panels p).refresh rows) }
      (p.query w.target)
  -- `irida_pc` and `irida_breakpoints` leave the session as it is
  | .disassembly =>
    (w.refreshDisassembly (liveVTable ops parseFile how)).ask ops parseFile how
      (.disasm (w.start ops parseFile how) DisassemblyPanel.rowLimit)

/-- `refresh` of some views, one after the other. -/
def refreshAll (views : List View) : MainWindow (CoreSession β) :=
  views.foldl (fun w x =>
    ((others x).foldl (ask ops parseFile how) w).refreshLive ops parseFile how x) w

/-- The views receive a signal. -/
def receiveLive : Signal → MainWindow (CoreSession β)
  | .stateChanged => w.refreshAll ops parseFile how others connected
  -- `DisassemblyPanel::setBase`, and then `XrefsPanel::setTarget`
  | .navigationRequested addr =>
    let w := refreshAll ops parseFile how others
      { w with disassembly := { w.disassembly with base := addr } } [.disassembly]
    refreshAll ops parseFile how others { w with target := addr } [.panel .xrefs]

/-- A call of the controller, and what the views make of its signal. -/
def performLive (c : ControllerCall (CoreSession β)) : MainWindow (CoreSession β) :=
  let fired := w.controller.fire (liveVTable ops parseFile how) c
  let w := { w with controller := fired.1 }
  match fired.2 with
  | none => w
  | some signal => w.receiveLive ops parseFile how others signal

/-- An event. -/
def stepLive : WindowEvent (CoreSession β) → MainWindow (CoreSession β)
  | .call c => w.performLive ops parseFile how others c
  | .cellDoubleClicked p row =>
    match (w.panels p).onDoubleClicked row with
    | none => w
    | some addr => w.performLive ops parseFile how others (.navigateTo addr)
  | .cellClicked row col =>
    match w.disassembly.onCellClicked row col with
    | none => w
    | some addr => w.performLive ops parseFile how others (.slot (.toggleBreakpoint addr))
  | .selectLinear => w.refreshAll ops parseFile how others [.disassembly]

/-- `setSession` with a session of the core, whatever the session was. -/
def setLiveSession {σ : Type*} (w : MainWindow σ) (s : CoreSession β) :
    MainWindow (CoreSession β) :=
  receiveLive ops parseFile how others
    { controller := { session := some s, kind := .native, analyzing := w.controller.analyzing }
      panels := w.panels
      target := w.target
      disassembly := w.disassembly }
    .stateChanged

/-- `attachToProcess`, with the backend that is made for it.  If there is no session, there is a
message box, and the window keeps the session that it has. -/
def attachToProcess {σ : Type*} (w : MainWindow σ) (b : β) : Option (MainWindow (CoreSession β)) :=
  match Target.attach ops.toBackend b with
  | .error _ => none
  | .ok target => some (w.setLiveSession ops parseFile how others { target := target })

end MainWindow

end

end Irida.Gui
