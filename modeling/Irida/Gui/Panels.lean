import Irida.Gui.RegistersPanel
import Irida.Gui.SessionViews
import Mathlib.Data.Fin.VecNotation

/-!
# The panels that list rows

Twelve of the panels are tables with a row for each row that the session answers with, and an
address for each, which a double click navigates to.  Their `refresh` is the same but for the rows
and the texts: `fillRow` for one row, `TablePanel.refresh` for all of them.

`shows_refresh` says that a refresh shows the rows that it is given, whatever the table held before.
It rests on `Fills.fillRows`: a loop that fills one row at a time leaves each row as it filled it.
-/

namespace Irida.Gui

open Api

/-! ## Filling a table -/

/-- What a row of a panel shows: the address that it stands for, the texts of the data columns, and
their background if the panel gives them one. -/
structure PanelRow (columns : ℕ) where
  address : U64
  texts : Fin columns → String
  background : Option QBrush := none

namespace IridaTableView

variable {columns : ℕ} (v : IridaTableView columns)

/-- `setBackground` of the item of a data column, if there is one. -/
def setBackground (row : ℤ) (col : Fin columns) (brush : QBrush) : IridaTableView columns :=
  v.changeRow row fun cells =>
    Function.update cells col.succ
      ((cells col.succ).map fun it => { it with background := brush })

/-- The text of the item of a data column, if there is one. -/
def textAt (row : ℤ) (col : Fin columns) : Option String :=
  (v.item row col.succ).map TableItem.text

/-- `setCell` for each of the data columns. -/
def setTexts (row : ℤ) (texts : Fin columns → String) : IridaTableView columns :=
  (List.finRange columns).foldl (fun v col => v.setCell row col (texts col)) v

/-- `setBackground` for each of the data columns. -/
def setBackgrounds (row : ℤ) (brush : QBrush) : IridaTableView columns :=
  (List.finRange columns).foldl (fun v col => v.setBackground row col brush) v

/-- The body of the loop of `refresh`. -/
def fillRow (row : PanelRow columns) (i : ℕ) : IridaTableView columns :=
  let v := v.setTexts (asInt i) row.texts
  match row.background with
  | none => v
  | some brush => v.setBackgrounds (asInt i) brush

end IridaTableView

/-- The row of a table shows this row of a panel. -/
structure PanelRow.ShownAt {columns : ℕ} (row : PanelRow columns) (v : IridaTableView columns)
    (r : ℤ) : Prop where
  text : ∀ col, v.textAt r col = some (row.texts col)
  background : ∀ brush ∈ row.background, ∀ col : Fin columns, v.background r col.succ = brush

/-- A loop over rows, from the row `i` on. -/
def fillRows {columns : ℕ} {α : Type*}
    (fill : IridaTableView columns → α → ℕ → IridaTableView columns) (rows : List α) (i : ℕ)
    (v : IridaTableView columns) : IridaTableView columns :=
  (rows.zipIdx i).foldl (fun v row => fill v row.1 row.2) v

/-- A panel that lists rows: the table, and the address of each row. -/
structure TablePanel (columns : ℕ) where
  view : IridaTableView columns := {}
  addrs : List U64 := []

namespace TablePanel

variable {columns : ℕ} (p : TablePanel columns)

/-- `refresh`, on the rows of the session. -/
def refresh (rows : List (PanelRow columns)) : TablePanel columns :=
  { view := fillRows IridaTableView.fillRow rows 0 (p.view.setRows (asInt rows.length))
    addrs := rows.map PanelRow.address }

/-- `onDoubleClicked`: the address that is navigated to. -/
def onDoubleClicked (row : ℤ) : Option U64 :=
  if 0 ≤ row ∧ row < asInt p.addrs.length then p.addrs[row.toNat]? else none

/-- The panel shows these rows, and no others. -/
structure Shows (rows : List (PanelRow columns)) : Prop where
  rowCount : p.view.rowCount = rows.length
  row : ∀ (i : ℕ) row, rows[i]? = some row → row.ShownAt p.view i
  addrs : p.addrs = rows.map PanelRow.address

end TablePanel

/-! ## The rows of each panel -/

/-- `QString("0x%1").arg(size, 0, 16).toUpper()`. -/
def formatSize (size : U64) : String :=
  ("0x" ++ hexAddr size).toUpper

/-- `permsString`, with the bits of `irida.h`. -/
def permsString (perms : Byte) : String :=
  let bit (mask : Byte) (letter : Char) := if perms &&& mask ≠ 0 then letter else '-'
  String.ofList [bit 4 'r', bit 2 'w', bit 1 'x']

section Rows

variable {σ : Type*} (vt : ViewVTable σ) (s : Option σ)

/-- The rows of `ModulesPanel::refresh`. -/
def ModulesPanel.rows : List (PanelRow 3) :=
  (iridaModules vt s).map fun m =>
    { address := m.base, texts := ![m.name, formatAddress m.base, formatSize m.size] }

/-- The rows of `BreakpointsPanel::refresh`. -/
def BreakpointsPanel.rows : List (PanelRow 3) :=
  (iridaBreakpoints vt s).map fun bp =>
    { address := bp.address
      texts := ![if bp.enabled then "yes" else "no", formatAddress bp.address,
        if bp.type = .hardware then "hw" else "sw"] }

/-- The rows of `ThreadsPanel::refresh`. -/
def ThreadsPanel.rows : List (PanelRow 3) :=
  (iridaThreads vt s).map fun t =>
    { address := t.pc
      texts := ![toString t.tid.toNat, formatAddress t.pc, if t.current then "*" else ""]
      background := some (if t.current then .solid Theme.currentIpBackground else .noBrush) }

/-- The rows of `MemoryMapPanel::refresh`. -/
def MemoryMapPanel.rows : List (PanelRow 5) :=
  (iridaMaps vt s).map fun m =>
    { address := m.start
      texts := ![formatAddress m.start, formatAddress m.end, formatSize (m.end - m.start),
        permsString m.perms, m.name] }

/-- The rows of `BacktracePanel::refresh`. -/
def BacktracePanel.rows : List (PanelRow 3) :=
  (iridaBacktrace vt s).mapIdx fun i frame =>
    { address := frame.pc
      texts := ![toString i, formatAddress frame.pc, formatAddress frame.framePtr] }

/-- The rows of `SectionsPanel::refresh`. -/
def SectionsPanel.rows : List (PanelRow 4) :=
  (iridaSections vt s).map fun sec =>
    { address := sec.vaddr
      texts := ![sec.name, formatAddress sec.vaddr, formatSize sec.vsize, permsString sec.perms] }

/-- The rows of `ImportsPanel::refresh`. -/
def ImportsPanel.rows : List (PanelRow 3) :=
  (iridaImports vt s).map fun imp =>
    { address := imp.addr, texts := ![imp.name, imp.library, formatAddress imp.addr] }

/-- The rows of `ExportsPanel::refresh`. -/
def ExportsPanel.rows : List (PanelRow 3) :=
  (iridaExports vt s).map fun exp =>
    { address := exp.addr
      texts := ![exp.name, formatAddress exp.addr, toString exp.ordinal.toNat] }

/-- The rows of `SymbolsPanel::refresh`. -/
def SymbolsPanel.rows : List (PanelRow 3) :=
  (iridaSymbols vt s).map fun sym =>
    { address := sym.addr, texts := ![sym.name, formatAddress sym.addr, sym.kind] }

/-- The rows of `StringsPanel::refresh`. -/
def StringsPanel.rows : List (PanelRow 2) :=
  (iridaStrings vt s).map fun str =>
    { address := str.addr, texts := ![formatAddress str.addr, textOf str.text] }

/-- The rows of `FunctionsPanel::refresh`. -/
def FunctionsPanel.rows : List (PanelRow 4) :=
  (iridaFunctions vt s).map fun fn =>
    { address := fn.addr
      texts := ![fn.name, formatAddress fn.addr, formatSize fn.size, toString fn.blockCount] }

/-- The type that `XrefsPanel::refresh` names. -/
def XrefsPanel.typeText (kind : ℤ) : String :=
  if kind = 0 then "Call" else if kind = 1 then "Jump" else if kind = 2 then "Data" else "?"

/-- The rows of `XrefsPanel::refresh`. -/
def XrefsPanel.rows (target : U64) : List (PanelRow 3) :=
  (iridaXrefsTo vt s target).map fun x =>
    { address := x.site
      texts := ![formatAddress x.site, formatAddress x.target, XrefsPanel.typeText x.kind] }

/-- The panels of the main window that list rows. -/
inductive PanelName
  | modules
  | breakpoints
  | threads
  | memoryMap
  | backtrace
  | sections
  | imports
  | exports
  | symbols
  | strings
  | functions
  | xrefs
  deriving DecidableEq, Repr

/-- The number of headers. -/
def PanelName.columns : PanelName → ℕ
  | .memoryMap => 5
  | .sections | .functions => 4
  | .strings => 2
  | .modules | .breakpoints | .threads | .backtrace | .imports | .exports | .symbols | .xrefs => 3

/-- The rows of a panel.  Only `XrefsPanel` has a target. -/
def panelRows (target : U64) : (p : PanelName) → List (PanelRow p.columns)
  | .modules => ModulesPanel.rows vt s
  | .breakpoints => BreakpointsPanel.rows vt s
  | .threads => ThreadsPanel.rows vt s
  | .memoryMap => MemoryMapPanel.rows vt s
  | .backtrace => BacktracePanel.rows vt s
  | .sections => SectionsPanel.rows vt s
  | .imports => ImportsPanel.rows vt s
  | .exports => ExportsPanel.rows vt s
  | .symbols => SymbolsPanel.rows vt s
  | .strings => StringsPanel.rows vt s
  | .functions => FunctionsPanel.rows vt s
  | .xrefs => XrefsPanel.rows vt s target

theorem length_panelRows (target : U64) (p : PanelName) :
    (panelRows vt s target p).length =
      match p with
      | .modules => (iridaModules vt s).length
      | .breakpoints => (iridaBreakpoints vt s).length
      | .threads => (iridaThreads vt s).length
      | .memoryMap => (iridaMaps vt s).length
      | .backtrace => (iridaBacktrace vt s).length
      | .sections => (iridaSections vt s).length
      | .imports => (iridaImports vt s).length
      | .exports => (iridaExports vt s).length
      | .symbols => (iridaSymbols vt s).length
      | .strings => (iridaStrings vt s).length
      | .functions => (iridaFunctions vt s).length
      | .xrefs => (iridaXrefsTo vt s target).length := by
  cases p
  case backtrace => exact List.length_mapIdx
  all_goals exact List.length_map _

end Rows

/-! ## A loop over rows -/

section Fill

open IridaTableView

variable {columns : ℕ} {v : IridaTableView columns} {α : Type*} {row : ℤ}
  {fill : IridaTableView columns → α → ℕ → IridaTableView columns}
  {Filled : α → IridaTableView columns → ℤ → Prop}

/-- The body of a loop leaves its own row filled, and the others as they are. -/
structure Fills (fill : IridaTableView columns → α → ℕ → IridaTableView columns)
    (Filled : α → IridaTableView columns → ℤ → Prop) : Prop where
  rowCount : ∀ v a i, (fill v a i).rowCount = v.rowCount
  other : ∀ v a i b row, row ≠ asInt i → Filled b v row → Filled b (fill v a i) row
  own : ∀ v a i, 0 ≤ asInt i → asInt i < v.rowCount → Filled a (fill v a i) (asInt i)

theorem fillRows_cons (a : α) (rows : List α) (i : ℕ) (v : IridaTableView columns) :
    fillRows fill (a :: rows) i v = fillRows fill rows (i + 1) (fill v a i) :=
  rfl

theorem Fills.rowCount_fillRows (h : Fills fill Filled) (rows : List α) (i : ℕ)
    (v : IridaTableView columns) : (fillRows fill rows i v).rowCount = v.rowCount := by
  induction rows generalizing i v with
  | nil => rfl
  | cons a rows ih => rw [fillRows_cons, ih, h.rowCount]

theorem Fills.fillRows_of_lt (h : Fills fill Filled) (rows : List α) (i : ℕ)
    (v : IridaTableView columns) (hint : i + rows.length ≤ 2 ^ 31) (hrow : row < i) {b : α}
    (hb : Filled b v row) : Filled b (fillRows fill rows i v) row := by
  induction rows generalizing i v with
  | nil => exact hb
  | cons a rows ih =>
      rw [List.length_cons] at hint
      rw [fillRows_cons]
      apply ih (i + 1) _ (by omega) (by omega)
      apply h.other _ _ _ _ _ _ hb
      rw [asInt_of_lt (by omega)]
      omega

/-- **Each row is left as the loop filled it.** -/
theorem Fills.fillRows (h : Fills fill Filled) (rows : List α) (i : ℕ)
    (v : IridaTableView columns) (hint : i + rows.length ≤ 2 ^ 31)
    (hcount : i + rows.length ≤ v.rowCount) {j : ℕ} {a : α} (hj : rows[j]? = some a) :
    Filled a (fillRows fill rows i v) ↑(i + j) := by
  induction rows generalizing i v j with
  | nil => cases hj
  | cons first rows ih =>
      rw [List.length_cons] at hint hcount
      have hasInt : asInt i = i := asInt_of_lt (by omega)
      rw [fillRows_cons]
      cases j with
      | zero =>
          obtain rfl : first = a := Option.some.inj hj
          apply h.fillRows_of_lt rows (i + 1) _ (by omega) (by omega)
          rw [Nat.add_zero, ← hasInt]
          exact h.own v first i (by omega) (by push_cast at hcount; omega)
      | succ j =>
          have hnext := ih (i + 1) (fill v first i) (by omega)
            (by rw [h.rowCount]; push_cast at hcount ⊢; omega) hj
          rwa [show i + 1 + j = i + (j + 1) by omega] at hnext

end Fill

/-! ## What filling a row does -/

namespace IridaTableView

variable {columns : ℕ} {v : IridaTableView columns} {row r : ℤ} {cells : RowCells columns}

theorem cells_ensureRow (hcells : v.cells r = some cells) :
    (v.ensureRow r).cells r = some fun col => some ((cells col).getD {}) := by
  rw [ensureRow, cells_changeRow, if_pos rfl, hcells]
  rfl

theorem cells_setCell (hcells : v.cells r = some cells) (col : Fin columns) (text : String) :
    (v.setCell r col text).cells r = some (Function.update
      (fun col => some ((cells col).getD {})) col.succ
        (some { (cells col.succ).getD {} with text := text })) := by
  rw [setCell, changeCell, cells_changeRow, if_pos rfl, cells_ensureRow hcells]
  rfl

theorem cells_setCell_of_ne (hne : row ≠ r) (col : Fin columns) (text : String) :
    (v.setCell r col text).cells row = v.cells row := by
  rw [setCell, changeCell, cells_changeRow, if_neg hne, ensureRow, cells_changeRow, if_neg hne]

@[simp] theorem rowCount_setCell (col : Fin columns) (text : String) :
    (v.setCell r col text).rowCount = v.rowCount := by
  rw [setCell, changeCell, rowCount_changeRow, ensureRow, rowCount_changeRow]

/-- The cells of a row have these texts, in the columns of the list. -/
def HasTexts (texts : Fin columns → String) (cols : List (Fin columns))
    (cells : RowCells columns) : Prop :=
  ∀ col ∈ cols, (cells col.succ).map TableItem.text = some (texts col)

theorem hasTexts_setCell (texts : Fin columns → String) {cols : List (Fin columns)}
    (h : HasTexts texts cols cells) (col : Fin columns) :
    HasTexts texts (col :: cols) (Function.update (fun col => some ((cells col).getD {})) col.succ
      (some { (cells col.succ).getD {} with text := texts col })) := by
  intro other hother
  by_cases heq : other = col
  · subst heq
    simp
  · have hmem : other ∈ cols := (List.mem_cons.mp hother).resolve_left heq
    have hne : other.succ ≠ col.succ := fun hsucc => heq (Fin.succ_injective _ hsucc)
    have htext := h other hmem
    cases hcell : cells other.succ with
    | none => simp [hcell] at htext
    | some item => simpa [Function.update_of_ne hne, hcell] using htext

theorem cells_foldl_setCell (texts : Fin columns → String) (todo done : List (Fin columns))
    (hcells : v.cells r = some cells) (hdone : HasTexts texts done cells) :
    ∃ cells', (todo.foldl (fun v col => v.setCell r col (texts col)) v).cells r = some cells' ∧
      HasTexts texts (todo.reverse ++ done) cells' := by
  induction todo generalizing v cells done with
  | nil => exact ⟨cells, hcells, hdone⟩
  | cons col todo ih =>
      have hnext := ih (col :: done) (cells_setCell hcells col (texts col))
        (hasTexts_setCell texts hdone col)
      rwa [List.foldl_cons, List.reverse_cons, List.append_assoc]

theorem cells_setTexts (texts : Fin columns → String) (hcells : v.cells r = some cells) :
    ∃ cells', (v.setTexts r texts).cells r = some cells' ∧
      ∀ col, (cells' col.succ).map TableItem.text = some (texts col) := by
  obtain ⟨cells', hcells', htexts⟩ := cells_foldl_setCell texts (List.finRange columns) [] hcells
    fun _ hcol => absurd hcol List.not_mem_nil
  exact ⟨cells', hcells', fun col => htexts col (by simp)⟩

theorem cells_setTexts_of_ne (hne : row ≠ r) (texts : Fin columns → String) :
    (v.setTexts r texts).cells row = v.cells row := by
  unfold setTexts
  induction List.finRange columns generalizing v with
  | nil => rfl
  | cons col cols ih => rw [List.foldl_cons, ih, cells_setCell_of_ne hne]

@[simp] theorem rowCount_setTexts (texts : Fin columns → String) :
    (v.setTexts r texts).rowCount = v.rowCount := by
  unfold setTexts
  induction List.finRange columns generalizing v with
  | nil => rfl
  | cons col cols ih => rw [List.foldl_cons, ih, rowCount_setCell]

/-- Each data column has an item with this text, and those of the list have the background. -/
structure Painted (texts : Fin columns → String) (brush : QBrush) (cols : List (Fin columns))
    (cells : RowCells columns) : Prop where
  text : ∀ col : Fin columns, (cells col.succ).map TableItem.text = some (texts col)
  background : ∀ col ∈ cols, (cells col.succ).map TableItem.background = some brush

theorem painted_setBackground {texts : Fin columns → String} {brush : QBrush}
    {cols : List (Fin columns)} (h : Painted texts brush cols cells) (col : Fin columns) :
    Painted texts brush (col :: cols) (Function.update cells col.succ
      ((cells col.succ).map fun it => { it with background := brush })) := by
  obtain ⟨item, hitem, -⟩ := Option.map_eq_some_iff.mp (h.text col)
  constructor
  · intro other
    have htext := h.text other
    by_cases heq : other = col
    · subst heq
      simpa [hitem] using htext
    · rwa [Function.update_of_ne fun hsucc => heq (Fin.succ_injective _ hsucc)]
  · intro other hother
    by_cases heq : other = col
    · subst heq
      simp [hitem]
    · rw [Function.update_of_ne fun hsucc => heq (Fin.succ_injective _ hsucc)]
      exact h.background other ((List.mem_cons.mp hother).resolve_left heq)

theorem cells_foldl_setBackground {texts : Fin columns → String} {brush : QBrush}
    (todo done : List (Fin columns)) (hcells : v.cells r = some cells)
    (hdone : Painted texts brush done cells) :
    ∃ cells', (todo.foldl (fun v col => v.setBackground r col brush) v).cells r = some cells' ∧
      Painted texts brush (todo.reverse ++ done) cells' := by
  induction todo generalizing v cells done with
  | nil => exact ⟨cells, hcells, hdone⟩
  | cons col todo ih =>
      have hcells' : (v.setBackground r col brush).cells r = some (Function.update cells col.succ
          ((cells col.succ).map fun it => { it with background := brush })) := by
        rw [setBackground, cells_changeRow, if_pos rfl, hcells]
        rfl
      have hnext := ih (col :: done) hcells' (painted_setBackground hdone col)
      rwa [List.foldl_cons, List.reverse_cons, List.append_assoc]

theorem cells_setBackgrounds_of_ne (hne : row ≠ r) (brush : QBrush) :
    (v.setBackgrounds r brush).cells row = v.cells row := by
  unfold setBackgrounds
  induction List.finRange columns generalizing v with
  | nil => rfl
  | cons col cols ih => rw [List.foldl_cons, ih, setBackground, cells_changeRow, if_neg hne]

@[simp] theorem rowCount_setBackgrounds (brush : QBrush) :
    (v.setBackgrounds r brush).rowCount = v.rowCount := by
  unfold setBackgrounds
  induction List.finRange columns generalizing v with
  | nil => rfl
  | cons col cols ih => rw [List.foldl_cons, ih, setBackground, rowCount_changeRow]

end IridaTableView

theorem PanelRow.ShownAt.of_cells {columns : ℕ} {row : PanelRow columns}
    {v w : IridaTableView columns} {r : ℤ} (h : row.ShownAt v r) (hcells : w.cells r = v.cells r) :
    row.ShownAt w r := by
  constructor
  · intro col
    rw [IridaTableView.textAt, IridaTableView.item, hcells]
    exact h.text col
  · intro brush hbrush col
    rw [IridaTableView.background, IridaTableView.item, hcells]
    exact h.background brush hbrush col

open IridaTableView in
/-- The body of the loop of `refresh` fills its row. -/
theorem fills_fillRow (columns : ℕ) : Fills (@fillRow columns) PanelRow.ShownAt where
  rowCount v row i := by
    unfold fillRow
    split <;> simp
  other v row i other r hne hother := by
    apply hother.of_cells
    unfold fillRow
    split
    · exact cells_setTexts_of_ne hne row.texts
    · rw [cells_setBackgrounds_of_ne hne, cells_setTexts_of_ne hne]
  own v row i hlow hhigh := by
    obtain ⟨cells, hcells⟩ := cells_of_lt hlow hhigh
    obtain ⟨cells, hcells, htexts⟩ := cells_setTexts row.texts hcells
    unfold fillRow
    -- the colour is put on items that have their texts already
    cases hback : row.background with
    | none =>
        refine ⟨fun col => ?_, fun brush hbrush => by simp [hback] at hbrush⟩
        rw [textAt, item, hcells]
        exact htexts col
    | some brush =>
        obtain ⟨cells, hcells, hpainted⟩ := cells_foldl_setBackground (List.finRange columns) []
          hcells ⟨htexts, fun _ hcol => absurd hcol List.not_mem_nil⟩
        have hcells' : ((v.setTexts (asInt i) row.texts).setBackgrounds (asInt i) brush).cells
            (asInt i) = some cells := hcells
        refine ⟨fun col => ?_, fun other hother col => ?_⟩
        · rw [textAt, item, hcells']
          exact hpainted.text col
        · obtain rfl : brush = other := Option.some.inj (hback.symm.trans hother)
          rw [background, item, hcells', Option.bind_some, hpainted.background col (by simp)]
          rfl

/-! ## What a refresh shows -/

theorem rowCount_setRows_asInt {columns : ℕ} (v : IridaTableView columns) {n : ℕ}
    (hint : n < 2 ^ 31) : (v.setRows (asInt n)).rowCount = n := by
  have hasInt : asInt n = n := asInt_of_lt hint
  rw [(IridaTableView.alike_setRows _ _).rowCount, IridaTableView.rowCount_setRowCount (by omega),
    hasInt]

namespace TablePanel

variable {columns : ℕ} {p : TablePanel columns} {rows : List (PanelRow columns)}

/-- **A refresh shows its rows**, whatever the table held before. -/
theorem shows_refresh (p : TablePanel columns) (hint : rows.length < 2 ^ 31) :
    (p.refresh rows).Shows rows := by
  have hfills := fills_fillRow columns
  have hcount := rowCount_setRows_asInt p.view hint
  constructor
  · exact (hfills.rowCount_fillRows rows 0 _).trans hcount
  · intro i row hrow
    have hshown := hfills.fillRows rows 0 (p.view.setRows (asInt rows.length)) (by omega)
      (by omega) hrow
    rwa [Nat.zero_add] at hshown
  · rfl

/-- A double click on a row that is shown leads to its address. -/
theorem Shows.onDoubleClicked (h : p.Shows rows) (hint : rows.length < 2 ^ 31) (i : ℤ) :
    p.onDoubleClicked i = if i < 0 then none else rows[i.toNat]?.map PanelRow.address := by
  have hlen : asInt p.addrs.length = rows.length := by
    rw [h.addrs, List.length_map, asInt_of_lt hint]
  unfold TablePanel.onDoubleClicked
  rw [hlen, h.addrs, List.getElem?_map]
  split
  · rw [if_neg (by omega)]
  · next hout =>
      split
      · rfl
      · rw [List.getElem?_eq_none (by omega)]
        rfl

end TablePanel

end Irida.Gui
