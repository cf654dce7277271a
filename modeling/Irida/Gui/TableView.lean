import Irida.Base
import Irida.Lib.GuardedRuns
import Mathlib.Data.Finset.Basic

/-!
# The table view

`IridaTableView` is the table that the debugger panels are built on.  It keeps which row is that of
the current instruction and which rows carry a breakpoint, and colours the background of the rows
accordingly.  `setRows` leaves both marks as they are, also those of rows that it removes.
`agrees_iff` says that marks and backgrounds agree in all states of a run if and only if no
`setRows` removes a row with a breakpoint, or brings the row of the current instruction into the
table.
-/

namespace Irida.Gui

open GuardedRuns

/-- `QColor`. -/
structure QColor where
  red : Byte
  green : Byte
  blue : Byte
  alpha : Byte := 0xff
  deriving DecidableEq, Repr

/-- `Qt::transparent`. -/
def QColor.transparent : QColor :=
  ⟨0, 0, 0, 0⟩

namespace Theme

/-- `theme::currentIpBackground`. -/
def currentIpBackground : QColor :=
  { red := 0x2b, green := 0x3d, blue := 0x2b }

/-- `theme::breakpointBackground`. -/
def breakpointBackground : QColor :=
  { red := 0x3a, green := 0x22, blue := 0x22 }

end Theme

/-- `QBrush`: one without a pattern, which is the default, or a solid one. -/
inductive QBrush
  | noBrush
  | solid (color : QColor)
  deriving DecidableEq, Repr

/-- `QTableWidgetItem`. -/
structure TableItem where
  text : String := ""
  background : QBrush := .noBrush
  foreground : QBrush := .noBrush
  deriving DecidableEq, Repr

/-- The cells of a row: the gutter, and one for each data column.  A cell may have no item. -/
abbrev RowCells (columns : ℕ) := Fin (columns + 1) → Option TableItem

/-- `IridaTableView`, with a data column for each header it is constructed with. -/
structure IridaTableView (columns : ℕ) where
  rows : List (RowCells columns) := []
  hidden : Fin (columns + 1) → Bool := fun _ => false
  currentIpRow : ℤ := -1
  breakpointRows : Finset ℤ := ∅

namespace IridaTableView

variable {columns : ℕ} (v : IridaTableView columns)

/-- `rowCount`. -/
def rowCount : ℤ :=
  v.rows.length

/-- The cells of a row, if there is such a row. -/
def cells (row : ℤ) : Option (RowCells columns) :=
  if row < 0 then none else v.rows[row.toNat]?

/-- `item`. -/
def item (row : ℤ) (col : Fin (columns + 1)) : Option TableItem :=
  (v.cells row).bind fun cells => cells col

/-- Change the cells of a row, if there is such a row. -/
def changeRow (row : ℤ) (f : RowCells columns → RowCells columns) : IridaTableView columns :=
  if row < 0 then v else { v with rows := v.rows.modify row.toNat f }

/-- `isCurrentIpRow`. -/
def isCurrentIpRow (row : ℤ) : Bool :=
  row = v.currentIpRow

/-- `isBreakpointRow`. -/
def isBreakpointRow (row : ℤ) : Bool :=
  row ∈ v.breakpointRows

/-- `ensureRow`. -/
def ensureRow (row : ℤ) : IridaTableView columns :=
  v.changeRow row fun cells col => some ((cells col).getD {})

/-- `QTableWidget::setRowCount`, which takes no notice of a negative number. -/
def setRowCount (count : ℤ) : IridaTableView columns :=
  if count < 0 then v
  else
    let missing := count.toNat - v.rows.length
    { v with rows := v.rows.take count.toNat ++ List.replicate missing fun _ => none }

/-- `setRows`. -/
def setRows (count : ℤ) : IridaTableView columns :=
  (List.range count.toNat).foldl (fun v row => v.ensureRow row) (v.setRowCount count)

/-- Change the item of a data column, which is made if the cell has none. -/
def changeCell (row : ℤ) (col : Fin columns) (f : TableItem → TableItem) :
    IridaTableView columns :=
  v.changeRow row fun cells => Function.update cells col.succ (some (f ((cells col.succ).getD {})))

/-- `setCell`. -/
def setCell (row : ℤ) (col : Fin columns) (text : String) : IridaTableView columns :=
  (v.ensureRow row).changeCell row col fun it => { it with text := text }

/-- `setForeground` of the item of a data column, if there is one. -/
def setForeground (row : ℤ) (col : Fin columns) (brush : QBrush) : IridaTableView columns :=
  v.changeRow row fun cells =>
    Function.update cells col.succ
      ((cells col.succ).map fun it => { it with foreground := brush })

/-- `setDataColumnHidden`. -/
def setDataColumnHidden (col : Fin columns) (hidden : Bool) : IridaTableView columns :=
  { v with hidden := Function.update v.hidden col.succ hidden }

/-- The colour that `applyRowBackground` chooses. -/
def rowColor (row : ℤ) : QColor :=
  if row = v.currentIpRow then Theme.currentIpBackground
  else if row ∈ v.breakpointRows then Theme.breakpointBackground
  else .transparent

/-- `applyRowBackground`. -/
def applyRowBackground (row : ℤ) : IridaTableView columns :=
  v.changeRow row fun cells col =>
    some { (cells col).getD {} with background := .solid (v.rowColor row) }

/-- `setCurrentIpRow`. -/
def setCurrentIpRow (row : ℤ) : IridaTableView columns :=
  let previous := v.currentIpRow
  let v := { v with currentIpRow := row }
  let v := if 0 ≤ previous ∧ previous < v.rowCount then v.applyRowBackground previous else v
  if 0 ≤ row ∧ row < v.rowCount then v.applyRowBackground row else v

/-- The mark of `setBreakpointRow`. -/
def markRow (row : ℤ) (on : Bool) : IridaTableView columns :=
  { v with
    breakpointRows := if on then insert row v.breakpointRows else v.breakpointRows.erase row }

/-- `setBreakpointRow`. -/
def setBreakpointRow (row : ℤ) (on : Bool) : IridaTableView columns :=
  if row < 0 ∨ v.rowCount ≤ row then v
  else ((v.ensureRow row).markRow row on).applyRowBackground row

end IridaTableView

/-! ## Runs -/

/-- The calls that change rows or marks. -/
inductive TableCall
  | setRows (count : ℤ)
  | setCurrentIpRow (row : ℤ)
  | setBreakpointRow (row : ℤ) (on : Bool)

namespace IridaTableView

variable {columns : ℕ} (v : IridaTableView columns)

/-- A call. -/
def call : TableCall → IridaTableView columns
  | .setRows count => v.setRows count
  | .setCurrentIpRow row => v.setCurrentIpRow row
  | .setBreakpointRow row on => v.setBreakpointRow row on

/-- The background of a cell. -/
def background (row : ℤ) (col : Fin (columns + 1)) : QBrush :=
  ((v.item row col).map TableItem.background).getD .noBrush

/-- The background that the marks of a row ask for. -/
def Shows (row : ℤ) (brush : QBrush) : Prop :=
  if v.isCurrentIpRow row then brush = .solid Theme.currentIpBackground
  else if v.isBreakpointRow row then brush = .solid Theme.breakpointBackground
  else brush = .noBrush ∨ brush = .solid .transparent

instance (row : ℤ) (brush : QBrush) : Decidable (v.Shows row brush) :=
  inferInstanceAs (Decidable
    (if v.isCurrentIpRow row = true then _ = _ else if v.isBreakpointRow row = true then _ = _
      else _ ∨ _))

/-- Marks and backgrounds agree. -/
structure Agrees : Prop where
  shows : ∀ row, 0 ≤ row → row < v.rowCount → ∀ col, v.Shows row (v.background row col)
  marked : ∀ row, v.isBreakpointRow row = true → 0 ≤ row ∧ row < v.rowCount

/-- What `setRows` would have to check: it removes no row with a breakpoint, and does not bring in
the row of the current instruction. -/
def Allows : TableCall → Prop
  | .setRows count =>
    count < 0 ∨ (∀ row ∈ v.breakpointRows, row < count) ∧
      ¬ (v.rowCount ≤ v.currentIpRow ∧ v.currentIpRow < count)
  | _ => True

/-! ## Changing a row -/

variable {v} {row r : ℤ} {col : Fin (columns + 1)} {f : RowCells columns → RowCells columns}

@[simp] theorem rowCount_changeRow : (v.changeRow r f).rowCount = v.rowCount := by
  unfold changeRow rowCount
  split
  · rfl
  · simp

@[simp] theorem currentIpRow_changeRow : (v.changeRow r f).currentIpRow = v.currentIpRow := by
  unfold changeRow
  split <;> rfl

@[simp] theorem breakpointRows_changeRow :
    (v.changeRow r f).breakpointRows = v.breakpointRows := by
  unfold changeRow
  split <;> rfl

theorem cells_changeRow :
    (v.changeRow r f).cells row = if row = r then (v.cells row).map f else v.cells row := by
  unfold changeRow cells
  by_cases hr : r < 0
  · by_cases hrow : row = r
    · simp [hr, hrow]
    · simp [hr, hrow]
  · by_cases hneg : row < 0
    · simp [hneg]
    · have hiff : r.toNat = row.toNat ↔ row = r := by omega
      simp only [hr, hneg, if_false, List.getElem?_modify, hiff]
      split
      · rfl
      · simp

theorem cells_of_lt (hlow : 0 ≤ row) (hhigh : row < v.rowCount) :
    ∃ cells, v.cells row = some cells := by
  have hlt : row.toNat < v.rows.length := by
    unfold rowCount at hhigh
    omega
  exact ⟨v.rows[row.toNat], by rw [cells, if_neg (by omega), List.getElem?_eq_getElem hlt]⟩

theorem cells_of_ge (hhigh : v.rowCount ≤ row) : v.cells row = none := by
  unfold rowCount at hhigh
  rw [cells, if_neg (by omega), List.getElem?_eq_none (by omega)]

theorem background_changeRow_of_ne (hne : row ≠ r) :
    (v.changeRow r f).background row col = v.background row col := by
  rw [background, item, cells_changeRow, if_neg hne]
  rfl

/-! ## Views that look the same -/

/-- Two views that differ in the items without a background only. -/
structure Alike (v w : IridaTableView columns) : Prop where
  rowCount : w.rowCount = v.rowCount
  currentIpRow : w.currentIpRow = v.currentIpRow
  breakpointRows : w.breakpointRows = v.breakpointRows
  background : ∀ row col, w.background row col = v.background row col

variable {w : IridaTableView columns}

theorem alike_ensureRow (v : IridaTableView columns) (r : ℤ) : Alike v (v.ensureRow r) where
  rowCount := rowCount_changeRow
  currentIpRow := currentIpRow_changeRow
  breakpointRows := breakpointRows_changeRow
  background row col := by
    by_cases hrow : row = r
    · unfold IridaTableView.background item ensureRow
      rw [cells_changeRow, if_pos hrow]
      cases v.cells row with
      | none => rfl
      | some cells => cases hcell : cells col <;> simp [hcell]
    · exact background_changeRow_of_ne hrow

theorem alike_foldl_ensureRow (rows : List ℕ) (v : IridaTableView columns) :
    Alike v (rows.foldl (fun v row => v.ensureRow row) v) := by
  induction rows generalizing v with
  | nil => exact ⟨rfl, rfl, rfl, fun _ _ => rfl⟩
  | cons row rows ih =>
      have hrow := alike_ensureRow v row
      have hrest := ih (v.ensureRow row)
      exact ⟨hrest.rowCount.trans hrow.rowCount, hrest.currentIpRow.trans hrow.currentIpRow,
        hrest.breakpointRows.trans hrow.breakpointRows,
        fun r col => (hrest.background r col).trans (hrow.background r col)⟩

theorem alike_setRows (v : IridaTableView columns) (count : ℤ) :
    Alike (v.setRowCount count) (v.setRows count) :=
  alike_foldl_ensureRow _ _

theorem shows_congr (hip : w.currentIpRow = v.currentIpRow)
    (hbp : row ∈ w.breakpointRows ↔ row ∈ v.breakpointRows) (brush : QBrush) :
    w.Shows row brush ↔ v.Shows row brush := by
  unfold Shows isCurrentIpRow isBreakpointRow
  rw [hip, decide_eq_decide.mpr hbp]

theorem Alike.symm (h : Alike v w) : Alike w v where
  rowCount := h.rowCount.symm
  currentIpRow := h.currentIpRow.symm
  breakpointRows := h.breakpointRows.symm
  background row col := (h.background row col).symm

theorem Alike.agrees (h : Alike v w) (hv : v.Agrees) : w.Agrees where
  shows row hlow hhigh col := by
    rw [h.background, shows_congr h.currentIpRow (by rw [h.breakpointRows])]
    exact hv.shows row hlow (by rwa [← h.rowCount]) col
  marked row hrow := by
    unfold isBreakpointRow at hrow
    rw [h.breakpointRows] at hrow
    rw [h.rowCount]
    exact hv.marked row hrow

theorem Alike.agrees_congr (h : Alike v w) : w.Agrees ↔ v.Agrees :=
  ⟨h.symm.agrees, h.agrees⟩

/-! ## Resizing -/

theorem rows_setRowCount {count : ℤ} (hcount : 0 ≤ count) :
    (v.setRowCount count).rows =
      v.rows.take count.toNat ++
        List.replicate (count.toNat - v.rows.length) fun _ => none := by
  rw [setRowCount, if_neg (by omega)]

theorem rowCount_setRowCount {count : ℤ} (hcount : 0 ≤ count) :
    (v.setRowCount count).rowCount = count := by
  rw [rowCount, rows_setRowCount hcount]
  simp only [List.length_append, List.length_take, List.length_replicate]
  omega

theorem cells_setRowCount {count : ℤ} (hcount : 0 ≤ count) (hlow : 0 ≤ row)
    (hhigh : row < count) :
    (v.setRowCount count).cells row =
      if row < v.rowCount then v.cells row else some fun _ => none := by
  have hneg : ¬ row < 0 := by omega
  simp only [cells, rowCount, rows_setRowCount hcount, hneg, if_false]
  split
  · rw [List.getElem?_append_left (by rw [List.length_take]; omega),
      List.getElem?_take_of_lt (by omega)]
  · have hlen : (v.rows.take count.toNat).length = v.rows.length := by
      rw [List.length_take]
      omega
    rw [List.getElem?_append_right (by omega), hlen, List.getElem?_replicate_of_lt (by omega)]

theorem background_setRowCount {count : ℤ} (hcount : 0 ≤ count) (hlow : 0 ≤ row)
    (hhigh : row < count) :
    (v.setRowCount count).background row col =
      if row < v.rowCount then v.background row col else .noBrush := by
  unfold background item
  rw [cells_setRowCount hcount hlow hhigh]
  split <;> rfl

@[simp] theorem currentIpRow_setRowCount {count : ℤ} :
    (v.setRowCount count).currentIpRow = v.currentIpRow := by
  unfold setRowCount
  split <;> rfl

@[simp] theorem breakpointRows_setRowCount {count : ℤ} :
    (v.setRowCount count).breakpointRows = v.breakpointRows := by
  unfold setRowCount
  split <;> rfl

theorem shows_setRowCount {count : ℤ} (brush : QBrush) :
    (v.setRowCount count).Shows row brush ↔ v.Shows row brush :=
  shows_congr currentIpRow_setRowCount (by rw [breakpointRows_setRowCount]) brush

/-- A resize leaves no mark behind, and no mark waits for a row that it brings in. -/
theorem Agrees.setRowCount (hv : v.Agrees) {count : ℤ} (hcount : 0 ≤ count)
    (hbp : ∀ row ∈ v.breakpointRows, row < count)
    (hip : ¬ (v.rowCount ≤ v.currentIpRow ∧ v.currentIpRow < count)) :
    (v.setRowCount count).Agrees where
  shows row hlow hhigh col := by
    rw [rowCount_setRowCount hcount] at hhigh
    rw [shows_setRowCount, background_setRowCount hcount (by omega) hhigh]
    split
    · next hold => exact hv.shows row hlow hold col
    · next hnew =>
        have hnotIp : row ≠ v.currentIpRow := by
          rintro rfl
          exact hip ⟨by omega, hhigh⟩
        have hnotBp : row ∉ v.breakpointRows := by
          intro hrow
          exact hnew (hv.marked row (by simpa [isBreakpointRow] using hrow)).2
        simp [Shows, isCurrentIpRow, isBreakpointRow, hnotIp, hnotBp]
  marked row hrow := by
    have hmem : row ∈ v.breakpointRows := by simpa [isBreakpointRow] using hrow
    rw [rowCount_setRowCount hcount]
    exact ⟨(hv.marked row (by simpa [isBreakpointRow] using hmem)).1, hbp row hmem⟩

/-- A resize is all right if and only if it leaves no mark behind. -/
theorem Agrees.setRowCount_iff (hv : v.Agrees) {count : ℤ} (hcount : 0 ≤ count) :
    (v.setRowCount count).Agrees ↔
      (∀ row ∈ v.breakpointRows, row < count) ∧
        ¬ (v.rowCount ≤ v.currentIpRow ∧ v.currentIpRow < count) := by
  refine ⟨fun h => ⟨fun row hrow => ?_, ?_⟩, fun h => hv.setRowCount hcount h.1 h.2⟩
  · have hlt := (h.marked row (by simpa [isBreakpointRow] using hrow)).2
    rwa [rowCount_setRowCount hcount] at hlt
  · rintro ⟨hnew, hhigh⟩
    -- the new row of the current instruction is not coloured
    have hlow : 0 ≤ v.rowCount := Int.natCast_nonneg _
    have hshow := h.shows v.currentIpRow (by omega) (by rwa [rowCount_setRowCount hcount]) 0
    rw [shows_setRowCount, background_setRowCount hcount (by omega) hhigh,
      if_neg (by omega)] at hshow
    simp [Shows, isCurrentIpRow] at hshow

/-! ## Colouring a row -/

theorem background_applyRowBackground_self (hlow : 0 ≤ row) (hhigh : row < v.rowCount) :
    (v.applyRowBackground row).background row col = .solid (v.rowColor row) := by
  obtain ⟨cells, hcells⟩ := cells_of_lt hlow hhigh
  unfold applyRowBackground background item
  rw [cells_changeRow, if_pos rfl, hcells]
  rfl

theorem shows_rowColor : v.Shows row (.solid (v.rowColor row)) := by
  unfold Shows rowColor isCurrentIpRow isBreakpointRow
  by_cases hip : row = v.currentIpRow
  · simp [hip]
  · by_cases hbp : row ∈ v.breakpointRows
    · simp [hip, hbp]
    · simp [hip, hbp]

/-- Marks and backgrounds agree but for rows that are still to be coloured. -/
structure AgreesBut (v : IridaTableView columns) (pending : ℤ → Prop) : Prop where
  shows : ∀ row, 0 ≤ row → row < v.rowCount → ¬ pending row →
    ∀ col, v.Shows row (v.background row col)
  marked : ∀ row, v.isBreakpointRow row = true → 0 ≤ row ∧ row < v.rowCount

variable {pending : ℤ → Prop}

theorem AgreesBut.agrees (h : v.AgreesBut pending) (hnone : ∀ row, ¬ pending row) : v.Agrees where
  shows row hlow hhigh := h.shows row hlow hhigh (hnone row)
  marked := h.marked

theorem AgreesBut.applyRowBackground (h : v.AgreesBut pending) (r : ℤ) :
    (v.applyRowBackground r).AgreesBut fun row => pending row ∧ row ≠ r where
  shows row hlow hhigh hpending col := by
    have hshows : ∀ brush, (v.applyRowBackground r).Shows row brush ↔ v.Shows row brush :=
      shows_congr currentIpRow_changeRow
        (by rw [IridaTableView.applyRowBackground, breakpointRows_changeRow])
    rw [IridaTableView.applyRowBackground, rowCount_changeRow] at hhigh
    rw [hshows]
    by_cases hself : row = r
    · subst hself
      rw [background_applyRowBackground_self hlow hhigh]
      exact shows_rowColor
    · rw [IridaTableView.applyRowBackground, background_changeRow_of_ne hself]
      exact h.shows row hlow hhigh (fun hp => hpending ⟨hp, hself⟩) col
  marked row hrow := by
    rw [IridaTableView.applyRowBackground, isBreakpointRow, breakpointRows_changeRow] at hrow
    rw [IridaTableView.applyRowBackground, rowCount_changeRow]
    exact h.marked row hrow

theorem AgreesBut.applyRowBackground_if (h : v.AgreesBut pending) (r : ℤ) :
    (if 0 ≤ r ∧ r < v.rowCount then v.applyRowBackground r else v).AgreesBut
      fun row => pending row ∧ row ≠ r := by
  split
  · exact h.applyRowBackground r
  · next hout =>
      refine ⟨fun row hlow hhigh hpending => ?_, h.marked⟩
      apply h.shows row hlow hhigh
      intro hp
      refine hpending ⟨hp, ?_⟩
      rintro rfl
      exact hout ⟨hlow, hhigh⟩

/-! ## Marking a row -/

theorem Agrees.setCurrentIpRow (hv : v.Agrees) (row : ℤ) : (v.setCurrentIpRow row).Agrees := by
  have hmoved : AgreesBut { v with currentIpRow := row }
      fun r => r = v.currentIpRow ∨ r = row := by
    refine ⟨fun r hlow hhigh hpending col => ?_, hv.marked⟩
    obtain ⟨hprevious, hrow⟩ := not_or.mp hpending
    have hshow := hv.shows r hlow hhigh col
    simp only [Shows, isCurrentIpRow, hprevious, hrow, decide_false] at hshow ⊢
    exact hshow
  apply ((hmoved.applyRowBackground_if v.currentIpRow).applyRowBackground_if row).agrees
  rintro r ⟨⟨hprevious | hrow, hne⟩, hne'⟩
  · exact hne hprevious
  · exact hne' hrow

theorem mem_markRow (on : Bool) (hne : row ≠ r) :
    row ∈ (v.markRow r on).breakpointRows ↔ row ∈ v.breakpointRows := by
  unfold markRow
  cases on <;> simp [hne]

theorem Agrees.markRow (hv : v.Agrees) (hlow : 0 ≤ r) (hhigh : r < v.rowCount) (on : Bool) :
    (v.markRow r on).AgreesBut fun row => row = r where
  shows row hl hh hne col := by
    have hshows := shows_congr (v := v) (w := v.markRow r on) rfl (mem_markRow on hne)
    exact (hshows _).mpr (hv.shows row hl hh col)
  marked row hrow := by
    by_cases hself : row = r
    · subst hself
      exact ⟨hlow, hhigh⟩
    · unfold isBreakpointRow at hrow
      rw [decide_eq_decide.mpr (mem_markRow on hself)] at hrow
      exact hv.marked row hrow

theorem Agrees.setBreakpointRow (hv : v.Agrees) (row : ℤ) (on : Bool) :
    (v.setBreakpointRow row on).Agrees := by
  unfold IridaTableView.setBreakpointRow
  split
  · exact hv
  · next hin =>
      obtain ⟨hlow, hhigh⟩ := not_or.mp hin
      have halike := alike_ensureRow v row
      have hmarked := (halike.agrees hv).markRow (r := row) (by omega)
        (by rw [halike.rowCount]; omega) on
      apply (hmarked.applyRowBackground row).agrees
      rintro r ⟨hself, hne⟩
      exact hne hself

/-! ## Runs of a view -/

/-- A call keeps the agreement if and only if it is one of those allowed. -/
theorem Agrees.call_iff (hv : v.Agrees) (c : TableCall) : (v.call c).Agrees ↔ v.Allows c := by
  cases c with
  | setRows count =>
      rw [call, (alike_setRows v count).agrees_congr, Allows]
      by_cases hcount : count < 0
      · have hsame : v.setRowCount count = v := if_pos hcount
        rw [hsame]
        exact iff_of_true hv (Or.inl hcount)
      · rw [hv.setRowCount_iff (by omega)]
        exact (or_iff_right hcount).symm
  | setCurrentIpRow row => exact iff_of_true (hv.setCurrentIpRow row) trivial
  | setBreakpointRow row on => exact iff_of_true (hv.setBreakpointRow row on) trivial

theorem agrees_empty : ({} : IridaTableView columns).Agrees where
  shows row hlow hhigh := by
    simp only [rowCount, List.length_nil] at hhigh
    omega
  marked row hrow := by simp [isBreakpointRow] at hrow

/-- **Marks and backgrounds agree** in all states of a run if and only if each of its calls is one
of those allowed. -/
theorem agrees_iff (calls : List TableCall) :
    (∀ made, made <+: calls → (made.foldl call ({} : IridaTableView columns)).Agrees) ↔
      Along call Allows ({} : IridaTableView columns) calls := by
  rw [along_iff_states, and_iff_right agrees_empty]
  exact along_iff (fun v c hv => hv.call_iff c) (fun v c _ hkeep => hkeep) agrees_empty

/-- A breakpoint in the second of two rows survives the removal of its row, and is there again
when the table grows, without its background. -/
theorem not_agrees_shrink :
    ¬ ∀ calls : List TableCall, ∀ made, made <+: calls →
      (made.foldl call ({} : IridaTableView 1)).Agrees := by
  intro h
  have hagrees := h
    [.setRows 2, .setBreakpointRow 1 true, .setRows 1, .setRows 2] _ (List.prefix_refl _)
  have hshow := hagrees.shows 1 (by decide) (by decide) 0
  revert hshow
  decide

end IridaTableView

end Irida.Gui
