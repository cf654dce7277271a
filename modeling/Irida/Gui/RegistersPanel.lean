import Irida.Api.MockBackend
import Irida.Gui.TableView
import Irida.Session.DebugController

/-!
# The registers panel

`DebugController` emits `stateChanged` after a step or a run that advanced the epoch, but also when
a breakpoint was toggled, when an analysis is done, and on request.  At each of these
`RegistersPanel` fills its rows and marks the values that are not those of the last refresh.

What the marks are to show is the change since the last stop.  Along a run they do so, and stay
where a refresh brings no new stop, exactly if each refresh is one that `Allows` names
(`follows_iff`): at a new stop the panel must have shown the stop before, and a refresh between
stops must come where no value has changed.
-/

namespace Irida

/-- `isLive`. -/
def Session.DebugController.isLive (c : Session.DebugController) : Bool :=
  c.kind = .native

namespace Gui

open Api Session GuardedRuns

namespace Theme

/-- `theme::registerName`. -/
def registerName : QColor :=
  { red := 0xe0, green := 0x9a, blue := 0x5a }

/-- `theme::liveValue`. -/
def liveValue : QColor :=
  { red := 0x9a, green := 0xd0, blue := 0x6f }

/-- `theme::changedValue`. -/
def changedValue : QColor :=
  { red := 0xe6, green := 0x64, blue := 0x64 }

end Theme

/-- `formatAddress`: sixteen digits in upper case. -/
def formatAddress (addr : U64) : String :=
  let digits := "0123456789ABCDEF".toList
  String.ofList ((List.range 16).map fun i => digits.getD (addr.toNat / 16 ^ (15 - i) % 16) '0')

/-! ## The panel -/

/-- `RegistersPanel`, with the columns `Register`, `Value` and `Hint`. -/
structure RegistersPanel where
  view : IridaTableView 3 := {}
  prevValues : List U64 := []

/-- The brush of a value. -/
def valueBrush (prevValues : List U64) (havePrev : Bool) (i : ℕ) (value : U64) : QBrush :=
  let changed := havePrev && prevValues[i]? != some value
  if changed then .solid Theme.changedValue else .noBrush

/-- A row of `refresh`. -/
def refreshRow (prevValues : List U64) (havePrev : Bool) (v : IridaTableView 3)
    (reg : RegisterRow) (i : ℕ) : IridaTableView 3 :=
  let r := asInt i
  let v := v.setCell r 0 reg.name
  let v := v.setCell r 1 (formatAddress reg.value)
  let v := v.setCell r 2 (reg.hint.getD "")
  let v := v.setForeground r 0 (.solid Theme.registerName)
  let v := v.setForeground r 1 (valueBrush prevValues havePrev i reg.value)
  v.setForeground r 2 (.solid Theme.liveValue)

/-- The loop of `refresh`, from the row `i` on. -/
def refreshRows (prevValues : List U64) (havePrev : Bool) (regs : List RegisterRow) (i : ℕ)
    (v : IridaTableView 3) : IridaTableView 3 :=
  (regs.zipIdx i).foldl (fun v reg => refreshRow prevValues havePrev v reg.1 reg.2) v

namespace RegistersPanel

/-- The constructor. -/
def opened (isLive : Bool) : RegistersPanel :=
  { view := ({} : IridaTableView 3).setDataColumnHidden 2 (!isLive) }

variable (p : RegistersPanel)

/-- `refresh`, on the registers of the session. -/
def refresh (isLive : Bool) (regs : List RegisterRow) : RegistersPanel :=
  let n := regs.length
  let v := (p.view.setDataColumnHidden 2 (!isLive)).setRows (asInt n)
  let havePrev := decide (p.prevValues.length = n)
  { view := refreshRows p.prevValues havePrev regs 0 v
    prevValues := regs.map RegisterRow.value }

/-- The colour of the value in a row, if there is one. -/
def foreground (v : IridaTableView 3) (row : ℤ) : Option QBrush :=
  (v.item row 2).map TableItem.foreground

/-- A row is marked as changed. -/
def Marked (row : ℕ) : Prop :=
  foreground p.view row = some (.solid Theme.changedValue)

instance (row : ℕ) : Decidable (p.Marked row) :=
  inferInstanceAs (Decidable (_ = _))

end RegistersPanel

/-- The register of this row has another value in the second list. -/
def Differ (old new : List U64) (row : ℕ) : Prop :=
  ∃ a ∈ old[row]?, ∃ b ∈ new[row]?, a ≠ b

/-! ## What a refresh shows -/

section Refresh

open IridaTableView RegistersPanel

variable {p : RegistersPanel} {v : IridaTableView 3} {prevValues : List U64} {havePrev : Bool}
  {reg : RegisterRow} {row r : ℤ} {i : ℕ}

theorem rowCount_refreshRow : (refreshRow prevValues havePrev v reg i).rowCount = v.rowCount := by
  simp [refreshRow, setCell, changeCell, ensureRow, setForeground]

theorem foreground_refreshRow_of_ne (hne : row ≠ asInt i) :
    foreground (refreshRow prevValues havePrev v reg i) row = foreground v row := by
  simp [foreground, item, refreshRow, setCell, changeCell, ensureRow, setForeground,
    cells_changeRow, hne]

theorem foreground_refreshRow (hlow : 0 ≤ asInt i) (hhigh : asInt i < v.rowCount) :
    foreground (refreshRow prevValues havePrev v reg i) (asInt i) =
      some (valueBrush prevValues havePrev i reg.value) := by
  obtain ⟨cells, hcells⟩ := cells_of_lt hlow hhigh
  simp [foreground, item, refreshRow, setCell, changeCell, ensureRow, setForeground,
    cells_changeRow, hcells, Function.update]

theorem refreshRows_cons (regs : List RegisterRow) :
    refreshRows prevValues havePrev (reg :: regs) i v =
      refreshRows prevValues havePrev regs (i + 1) (refreshRow prevValues havePrev v reg i) :=
  rfl

theorem rowCount_refreshRows (regs : List RegisterRow) (i : ℕ) (v : IridaTableView 3) :
    (refreshRows prevValues havePrev regs i v).rowCount = v.rowCount := by
  induction regs generalizing i v with
  | nil => rfl
  | cons reg regs ih => rw [refreshRows_cons, ih, rowCount_refreshRow]

theorem foreground_refreshRows_of_lt (regs : List RegisterRow) (i : ℕ) (v : IridaTableView 3)
    (hint : i + regs.length ≤ 2 ^ 31) (hrow : row < i) :
    foreground (refreshRows prevValues havePrev regs i v) row = foreground v row := by
  induction regs generalizing i v with
  | nil => rfl
  | cons reg regs ih =>
      rw [List.length_cons] at hint
      rw [refreshRows_cons, ih (i + 1) _ (by omega) (by omega)]
      apply foreground_refreshRow_of_ne
      rw [asInt_of_lt (by omega)]
      omega

theorem foreground_refreshRows (prevValues : List U64) (havePrev : Bool)
    (regs : List RegisterRow) (i : ℕ) (v : IridaTableView 3)
    (hint : i + regs.length ≤ 2 ^ 31) (hcount : i + regs.length ≤ v.rowCount) {j : ℕ}
    (hj : regs[j]? = some reg) :
    foreground (refreshRows prevValues havePrev regs i v) ↑(i + j) =
      some (valueBrush prevValues havePrev (i + j) reg.value) := by
  induction regs generalizing i v j with
  | nil => cases hj
  | cons first regs ih =>
      rw [List.length_cons] at hint hcount
      have hasInt : asInt i = i := asInt_of_lt (by omega)
      rw [refreshRows_cons]
      cases j with
      | zero =>
          obtain rfl : first = reg := Option.some.inj hj
          rw [foreground_refreshRows_of_lt regs (i + 1) _ (by omega) (by omega), Nat.add_zero,
            ← hasInt, foreground_refreshRow (by omega) (by push_cast at hcount; omega)]
      | succ j =>
          have hnext := ih (i + 1) (refreshRow prevValues havePrev v first i) (by omega)
            (by rw [rowCount_refreshRow]; push_cast at hcount ⊢; omega) hj
          rwa [show i + 1 + j = i + (j + 1) by omega] at hnext

variable {isLive : Bool} {regs : List RegisterRow}

theorem rowCount_setRows (hregs : regs.length < 2 ^ 31) :
    (v.setRows (asInt regs.length)).rowCount = regs.length := by
  have hint : asInt regs.length = regs.length := asInt_of_lt hregs
  rw [(alike_setRows _ _).rowCount, rowCount_setRowCount (by omega), hint]

theorem rowCount_refresh (hregs : regs.length < 2 ^ 31) :
    (p.refresh isLive regs).view.rowCount = regs.length :=
  (rowCount_refreshRows regs 0 _).trans (rowCount_setRows hregs)

/-- **A refresh marks the values that differ from those of the refresh before**, if the numbers of
registers are the same. -/
theorem marked_refresh (hregs : regs.length < 2 ^ 31) (row : ℕ) :
    (p.refresh isLive regs).Marked row ↔
      p.prevValues.length = regs.length ∧
        Differ p.prevValues (regs.map RegisterRow.value) row := by
  by_cases hrow : row < regs.length
  · have hreg : regs[row]? = some regs[row] := List.getElem?_eq_getElem hrow
    have hshow : foreground (p.refresh isLive regs).view row = some (valueBrush p.prevValues
        (decide (p.prevValues.length = regs.length)) row regs[row].value) := by
      have hbrush := foreground_refreshRows p.prevValues
        (decide (p.prevValues.length = regs.length)) regs 0
        ((p.view.setDataColumnHidden 2 (!isLive)).setRows (asInt regs.length)) (by omega)
        (by rw [rowCount_setRows hregs]; omega) hreg
      rwa [Nat.zero_add] at hbrush
    rw [Marked, hshow, Differ, List.getElem?_map, hreg]
    unfold valueBrush
    by_cases hlen : p.prevValues.length = regs.length
    · have hlt : row < p.prevValues.length := by omega
      have hprev : p.prevValues[row]? = some p.prevValues[row] := List.getElem?_eq_getElem hlt
      simp [hlen, hprev]
    · simp [hlen]
  · have hnone : (p.refresh isLive regs).view.cells row = none := by
      apply cells_of_ge
      rw [rowCount_refresh hregs]
      omega
    refine iff_of_false ?_ ?_
    · simp [Marked, foreground, item, hnone]
    · rintro ⟨-, a, -, b, hb, -⟩
      rw [List.getElem?_map, List.getElem?_eq_none (by omega)] at hb
      cases hb

end Refresh

/-! ## The window -/

/-- The controller, the session it points to if it does, and the panel.  `stops` are the values at
the stops so far, the newest first. -/
structure RegistersWindow (σ : Type*) where
  controller : DebugController
  state : σ
  panel : RegistersPanel
  stops : List (List U64)

/-- What happens to the controller: its slots, and the worker of `runAnalysis`, which calls
`irida_analyze` and finishes. -/
inductive ControllerEvent
  | control (op : ControlOp)
  | toggleBreakpoint (addr : U64)
  | setBreakpointEnabled (addr : U64) (on : Bool)
  | refreshViews
  | runAnalysis
  | analyze
  | analysisFinished
  deriving DecidableEq

namespace RegistersWindow

variable {σ : Type*} (vt : BackendVTable σ) (w : RegistersWindow σ)

/-- The session that the controller points to. -/
def session : Option σ :=
  w.controller.session.map fun _ => w.state

/-- The values of the registers. -/
def values : List U64 :=
  (iridaRegisters vt w.session).map RegisterRow.value

/-- A call on the session. -/
def call (c : SessionCall) : RegistersWindow σ :=
  { w with state := (iridaCall vt c w.session).getD w.state }

/-- An event, and whether `stateChanged` is emitted. -/
def fire : ControllerEvent → RegistersWindow σ × Bool
  | .control op =>
    let e := iridaStateEpoch vt w.session
    let w := w.call vt (.control op)
    -- `afterOp`
    (w, decide (iridaStateEpoch vt w.session ≠ e))
  | .toggleBreakpoint addr => (w.call vt (.bpToggle addr), true)
  | .setBreakpointEnabled addr on => (w.call vt (.bpSetEnabled addr on), true)
  | .refreshViews => (w, true)
  | .runAnalysis => ({ w with controller := w.controller.runAnalysis.1 }, false)
  | .analyze => (w.call vt .analyze, false)
  | .analysisFinished =>
    if w.controller.analyzing then ({ w with controller := w.controller.analysisDone }, true)
    else (w, false)

/-- The event brings a new stop. -/
def Advances (e : ControllerEvent) : Prop :=
  iridaStateEpoch vt (w.fire vt e).1.session ≠ iridaStateEpoch vt w.session

instance (e : ControllerEvent) : Decidable (w.Advances vt e) :=
  inferInstanceAs (Decidable (_ ≠ _))

/-- The event has the views reloaded. -/
def Refreshes (e : ControllerEvent) : Prop :=
  (w.fire vt e).2 = true

instance (e : ControllerEvent) : Decidable (w.Refreshes vt e) :=
  inferInstanceAs (Decidable (_ = _))

/-- An event, and the refresh that it brings about. -/
def step (e : ControllerEvent) : RegistersWindow σ :=
  let fired := (w.fire vt e).1
  { fired with
    panel :=
      if w.Refreshes vt e then
        w.panel.refresh fired.controller.isLive (iridaRegisters vt fired.session)
      else w.panel
    stops := if w.Advances vt e then fired.values vt :: w.stops else w.stops }

/-- A window that has just been opened on a session, or on none. -/
def opened (session : Bool) (kind : SessionKind) (s : σ) : RegistersWindow σ :=
  let c : DebugController := { session := if session then some 0 else none, kind := kind }
  { controller := c
    state := s
    panel := .opened c.isLive
    stops := [(iridaRegisters vt (c.session.map fun _ => s)).map RegisterRow.value] }

end RegistersWindow

/-- The register of this row has another value at the newest stop than at the one before. -/
def ChangedSince (stops : List (List U64)) (row : ℕ) : Prop :=
  ∃ new ∈ stops[0]?, ∃ old ∈ stops[1]?, Differ old new row

namespace RegistersWindow

variable {σ : Type*} (vt : BackendVTable σ) (w : RegistersWindow σ)

/-- The marks show what has changed since the last stop. -/
def Highlights : Prop :=
  ∀ row, w.panel.Marked row ↔ ChangedSince w.stops row

/-- If the event brings a refresh, the marks follow the stops, and they stay where they are unless
there is a new stop. -/
def Follows (e : ControllerEvent) : Prop :=
  w.Refreshes vt e →
    (w.step vt e).Highlights ∧
      (¬ w.Advances vt e → ∀ row, (w.step vt e).panel.Marked row ↔ w.panel.Marked row)

/-- A refresh comes with a new stop, and there are as many registers as the panel has the values of;
or it comes where no value has changed since the last stop. -/
def Allows (e : ControllerEvent) : Prop :=
  w.Refreshes vt e →
    (w.Advances vt e ∧
        w.panel.prevValues.length = (iridaRegisters vt (w.fire vt e).1.session).length) ∨
      ∀ row, ¬ ChangedSince (w.step vt e).stops row

/-! ## What an event does -/

variable {vt} {w} {Live : σ → Prop} {e : ControllerEvent}

theorem session_call (c : SessionCall) : (w.call vt c).session = iridaCall vt c w.session := by
  cases hsession : w.controller.session with
  | none => simp [session, call, hsession, iridaCall]
  | some id => cases hentry : vt.entry c <;> simp [session, call, hsession, iridaCall, hentry]

theorem session_runAnalysis (c : DebugController) : c.runAnalysis.1.session = c.session := by
  unfold DebugController.runAnalysis
  split <;> rfl

/-- An event makes one call on the session or none, and only a slot that steps or runs it makes a
call that can bring a new stop. -/
theorem fire_cases (vt : BackendVTable σ) (w : RegistersWindow σ) (e : ControllerEvent) :
    (∃ c, (w.fire vt e).1.session = iridaCall vt c w.session ∧
        (∀ op, c = .control op → e = .control op)) ∨
      (w.fire vt e).1.session = w.session := by
  cases e with
  | control op => exact Or.inl ⟨.control op, session_call _, fun _ h => by cases h; rfl⟩
  | toggleBreakpoint addr => exact Or.inl ⟨.bpToggle addr, session_call _, fun _ h => nomatch h⟩
  | setBreakpointEnabled addr on =>
      exact Or.inl ⟨.bpSetEnabled addr on, session_call _, fun _ h => nomatch h⟩
  | refreshViews => exact Or.inr rfl
  | runAnalysis =>
      refine Or.inr ?_
      simp only [fire, session, session_runAnalysis]
  | analyze => exact Or.inl ⟨.analyze, session_call _, fun _ h => nomatch h⟩
  | analysisFinished =>
      refine Or.inr ?_
      simp only [fire]
      split <;> rfl

theorem live_fire (hvt : Stamped vt Live) (hlive : ∀ x ∈ w.session, Live x) (e : ControllerEvent) :
    ∀ x ∈ (w.fire vt e).1.session, Live x := by
  rcases fire_cases vt w e with ⟨c, hcall, -⟩ | hsame
  · rw [hcall]
    exact hvt.live_call hlive
  · rw [hsame]
    exact hlive

theorem registers_fire (hvt : Stamped vt Live) (hlive : ∀ x ∈ w.session, Live x)
    (he : ¬ w.Advances vt e) :
    iridaRegisters vt (w.fire vt e).1.session = iridaRegisters vt w.session := by
  unfold Advances at he
  rcases fire_cases vt w e with ⟨c, hcall, -⟩ | hsame
  · rw [hcall] at he ⊢
    exact hvt.registers_call hlive (not_not.mp he)
  · rw [hsame]

/-- A new stop is always shown. -/
theorem refreshes_of_advances (hvt : Stamped vt Live) (hlive : ∀ x ∈ w.session, Live x)
    (he : w.Advances vt e) : w.Refreshes vt e := by
  unfold Advances at he
  rcases fire_cases vt w e with ⟨c, hcall, honly⟩ | hsame
  · by_cases hc : ∃ op, c = .control op
    · obtain ⟨op, rfl⟩ := hc
      obtain rfl := honly op rfl
      exact decide_eq_true he
    · rw [hcall] at he
      exact absurd (hvt.epoch_call hlive fun op hop => hc ⟨op, hop⟩) he
  · rw [hsame] at he
    exact absurd rfl he

theorem values_step : (w.step vt e).values vt = (w.fire vt e).1.values vt :=
  rfl

theorem values_step_of_not_advances (hvt : Stamped vt Live) (hlive : ∀ x ∈ w.session, Live x)
    (he : ¬ w.Advances vt e) : (w.step vt e).values vt = w.values vt := by
  rw [values_step, values, registers_fire hvt hlive he, values]

theorem panel_step (he : w.Refreshes vt e) :
    (w.step vt e).panel = w.panel.refresh (w.fire vt e).1.controller.isLive
      (iridaRegisters vt (w.fire vt e).1.session) :=
  if_pos he

theorem marked_step (hvt : Stamped vt Live) (hlive : ∀ x ∈ w.session, Live x)
    (he : w.Refreshes vt e) (row : ℕ) :
    (w.step vt e).panel.Marked row ↔
      w.panel.prevValues.length = ((w.step vt e).values vt).length ∧
        Differ w.panel.prevValues ((w.step vt e).values vt) row := by
  rw [panel_step he, marked_refresh (hvt.count_call (live_fire hvt hlive e)), values_step, values,
    List.length_map]

/-! ## The invariant -/

/-- The newest stop is the present one, and the panel shows it, or has not been filled yet. -/
structure Settled (vt : BackendVTable σ) (Live : σ → Prop) (w : RegistersWindow σ) : Prop where
  live : ∀ x ∈ w.session, Live x
  newest : w.stops[0]? = some (w.values vt)
  panel : w.panel.prevValues = w.values vt ∧ w.Highlights ∨
    w.panel.prevValues = [] ∧ ∀ row, ¬ w.panel.Marked row

theorem settled_opened {s : σ} (hs : Live s) (session : Bool) (kind : SessionKind) :
    Settled vt Live (opened vt session kind s) where
  live x hx := by
    cases session with
    | false => cases hx
    | true =>
        obtain rfl : s = x := Option.some.inj hx
        exact hs
  newest := rfl
  panel := by
    refine Or.inr ⟨rfl, fun row hrow => ?_⟩
    unfold RegistersPanel.Marked RegistersPanel.foreground IridaTableView.item at hrow
    rw [IridaTableView.cells_of_ge (Int.natCast_nonneg row)] at hrow
    cases hrow

theorem Settled.step (hvt : Stamped vt Live) (hw : Settled vt Live w) (he : w.Follows vt e) :
    Settled vt Live (w.step vt e) := by
  have hlive := live_fire hvt hw.live e
  by_cases hrefresh : w.Refreshes vt e
  · refine ⟨hlive, ?_, Or.inl ⟨?_, (he hrefresh).1⟩⟩
    · by_cases hadvance : w.Advances vt e
      · have hstops : (w.step vt e).stops = (w.step vt e).values vt :: w.stops := if_pos hadvance
        rw [hstops, List.getElem?_cons_zero]
      · have hstops : (w.step vt e).stops = w.stops := if_neg hadvance
        rw [hstops, hw.newest, values_step_of_not_advances hvt hw.live hadvance]
    · rw [panel_step hrefresh]
      rfl
  · have hadvance : ¬ w.Advances vt e := fun h =>
      hrefresh (refreshes_of_advances hvt hw.live h)
    have hvalues := values_step_of_not_advances hvt hw.live hadvance
    have hstops : (w.step vt e).stops = w.stops := if_neg hadvance
    have hpanel : (w.step vt e).panel = w.panel := if_neg hrefresh
    refine ⟨hlive, by rw [hstops, hvalues, hw.newest], ?_⟩
    rw [Highlights, hpanel, hstops, hvalues]
    exact hw.panel

theorem not_differ_self (l : List U64) (row : ℕ) : ¬ Differ l l row := by
  rintro ⟨a, ha, b, hb, hne⟩
  exact hne (Option.some.inj (ha.symm.trans hb))

theorem not_differ_nil (l : List U64) (row : ℕ) : ¬ Differ [] l row := by
  rintro ⟨a, ha, -⟩
  cases ha

/-- The values of the panel stand in for those of the last stop, or there are none yet. -/
theorem forall_marked_iff {prev old new : List U64} (hprev : prev = old ∨ prev = []) :
    (∀ row, (prev.length = new.length ∧ Differ prev new row ↔ Differ old new row)) ↔
      prev.length = new.length ∨ ∀ row, ¬ Differ old new row := by
  rcases hprev with rfl | rfl
  · by_cases hlen : prev.length = new.length
    · simp [hlen]
    · simp [hlen]
  · -- the panel has not been filled: no row is marked
    have hnone : ∀ row, ¬ (([] : List U64).length = new.length ∧ Differ [] new row) :=
      fun row h => not_differ_nil _ row h.2
    simp only [hnone, false_iff]
    refine (or_iff_right_of_imp fun hlen => ?_).symm
    have hempty : new = [] := List.length_eq_zero_iff.mp hlen.symm
    rw [hempty]
    rintro row ⟨a, -, b, hb, -⟩
    cases hb

theorem Settled.changedSince_step (hw : Settled vt Live w) (hadvance : w.Advances vt e)
    (row : ℕ) : ChangedSince (w.step vt e).stops row ↔
      Differ (w.values vt) ((w.step vt e).values vt) row := by
  have hstops : (w.step vt e).stops = (w.step vt e).values vt :: w.stops := if_pos hadvance
  simp [ChangedSince, hstops, hw.newest]

theorem Settled.follows_of_advances (hvt : Stamped vt Live) (hw : Settled vt Live w)
    (hadvance : w.Advances vt e) : w.Follows vt e ↔ w.Allows vt e := by
  have hrefresh := refreshes_of_advances hvt hw.live hadvance
  have hchanged := hw.changedSince_step hadvance
  have hlength : (iridaRegisters vt (w.fire vt e).1.session).length =
      ((w.step vt e).values vt).length := (List.length_map _).symm
  have hfollows : w.Follows vt e ↔ ∀ row,
      (w.panel.prevValues.length = ((w.step vt e).values vt).length ∧
        Differ w.panel.prevValues ((w.step vt e).values vt) row ↔
          Differ (w.values vt) ((w.step vt e).values vt) row) := by
    simp only [Follows, hrefresh, hadvance, not_true, false_implies, and_true, true_implies,
      Highlights, marked_step hvt hw.live hrefresh, hchanged]
  have hallows : w.Allows vt e ↔
      w.panel.prevValues.length = ((w.step vt e).values vt).length ∨
        ∀ row, ¬ Differ (w.values vt) ((w.step vt e).values vt) row := by
    simp only [Allows, hrefresh, hadvance, true_and, true_implies, hlength, hchanged]
  rw [hfollows, hallows]
  exact forall_marked_iff (hw.panel.imp And.left And.left)

theorem Settled.follows_of_not_advances (hvt : Stamped vt Live) (hw : Settled vt Live w)
    (hadvance : ¬ w.Advances vt e) : w.Follows vt e ↔ w.Allows vt e := by
  by_cases hrefresh : w.Refreshes vt e
  · have hstops : (w.step vt e).stops = w.stops := if_neg hadvance
    have hunmarked : ∀ row, ¬ (w.step vt e).panel.Marked row := by
      intro row
      rw [marked_step hvt hw.live hrefresh, values_step_of_not_advances hvt hw.live hadvance]
      rintro ⟨-, hdiffer⟩
      rcases hw.panel with ⟨hprev, -⟩ | ⟨hprev, -⟩
      · rw [hprev] at hdiffer
        exact not_differ_self _ row hdiffer
      · rw [hprev] at hdiffer
        exact not_differ_nil _ row hdiffer
    have hbefore : (∀ row, ¬ ChangedSince w.stops row) → ∀ row, ¬ w.panel.Marked row := by
      intro hnone row
      rcases hw.panel with ⟨-, hhighlights⟩ | ⟨-, hunfilled⟩
      · rw [hhighlights row]
        exact hnone row
      · exact hunfilled row
    simp only [Follows, Allows, hrefresh, hadvance, true_implies, false_and, false_or, Highlights,
      hstops, hunmarked, false_iff, not_false_eq_true]
    exact and_iff_left_of_imp hbefore
  · exact iff_of_true (fun h => absurd h hrefresh) (fun h => absurd h hrefresh)

/-- **The marks follow the stops** all along a run if and only if each event is one of those
allowed. -/
theorem follows_iff (hvt : Stamped vt Live) {s : σ} (hs : Live s) (session : Bool)
    (kind : SessionKind) (events : List ControllerEvent) :
    Along (step vt) (Follows vt) (opened vt session kind s) events ↔
      Along (step vt) (Allows vt) (opened vt session kind s) events := by
  refine along_iff (fun w e (hw : Settled vt Live w) => ?_) (fun w e hw he => hw.step hvt he)
    (settled_opened hs session kind)
  by_cases hadvance : w.Advances vt e
  · exact hw.follows_of_advances hvt hadvance
  · exact hw.follows_of_not_advances hvt hadvance

/-- The first refresh, and a step after it. -/
theorem follows_mock_step :
    Along (step mockVTable) (Follows mockVTable) (opened mockVTable true .mock {})
      [.refreshViews, .control .stepInto] := by
  refine (follows_iff stamped_mock trivial true .mock [.refreshViews, .control .stepInto]).mpr
    ⟨fun _ => Or.inr ?_, fun _ => Or.inl ⟨by decide, by decide⟩, trivial⟩
  rintro row ⟨-, -, old, hold, -⟩
  cases hold

/-- A step changes `rax`, and a breakpoint that is toggled takes the mark away. -/
theorem not_follows_mock_toggle :
    ¬ Along (step mockVTable) (Follows mockVTable) (opened mockVTable true .mock {})
      [.refreshViews, .control .stepInto, .toggleBreakpoint 0x00007FF751FA244B] := by
  rintro ⟨-, -, htoggle, -⟩
  have hmarked := ((htoggle rfl).1 0).mpr ⟨_, rfl, _, rfl, _, rfl, _, rfl, by decide⟩
  revert hmarked
  decide +kernel

end RegistersWindow

end Gui

end Irida
