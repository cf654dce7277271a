import Irida.Gui.Panels

/-!
# The disassembly panel

`DisassemblyPanel` lists the instructions from an address on, marks the rows with a breakpoint, and
marks the row of the program counter.  The marks of `IridaTableView` outlive the rows that they were
made for, so that a refresh meets marks of rows that have other instructions now, or are gone.

`shows_refresh` says that a refresh puts all of it right, whatever the table held before: the rows,
the marks of both kinds, and the backgrounds.  The loop over the breakpoints sets each mark that can
be seen, also to off, and colours each row; a row that is the current one no longer is coloured once
more when `setCurrentIpRow` moves the mark.
-/

namespace Irida.Gui

open Api

/-- `theme::address`. -/
def Theme.address : QColor :=
  { red := 0x7f, green := 0x88, blue := 0x96 }

/-- The instance by which the literals below are columns. -/
instance columns_neZero : NeZero 4 :=
  inferInstance

/-- `DisassemblyPanel`, with the columns `Address`, `Bytes`, `Instruction` and `Live-value`. -/
structure DisassemblyPanel where
  view : IridaTableView 4 := {}
  rowAddrs : List U64 := []
  base : U64 := 0

namespace DisassemblyPanel

/-- The constructor. -/
def opened (isLive : Bool) : DisassemblyPanel :=
  { view := ({} : IridaTableView 4).setDataColumnHidden 3 (!isLive) }

/-- The number of rows that are asked for. -/
def rowLimit : U64 := 256

/-- The body of the loop over the instructions. -/
def fillInsn (v : IridaTableView 4) (row : InsnRow) (i : ℕ) : IridaTableView 4 :=
  let r := asInt i
  let v := v.setCell r 0 (formatAddress row.addr)
  let v := v.setForeground r 0 (.solid Theme.address)
  let v := v.setCell r 1 row.bytes
  let v := v.setCell r 2 row.text
  match row.annot with
  | some annot => (v.setCell r 3 annot).setForeground r 3 (.solid Theme.liveValue)
  | none => v.setCell r 3 ""

/-- The body of the loop over the breakpoints. -/
def markInsn (bps : List BreakpointRow) (v : IridaTableView 4) (addr : U64) (i : ℕ) :
    IridaTableView 4 :=
  v.setBreakpointRow (asInt i) (bps.any fun bp => bp.address = addr)

/-- `ip_row`: the last row at the program counter, if there is one. -/
def ipRow (rowAddrs : List U64) (pc : U64) : ℤ :=
  rowAddrs.zipIdx.foldl (fun ip row => if row.1 = pc then asInt row.2 else ip) (-1)

variable {σ : Type*} (vt : ViewVTable σ) (isLive : Bool) (s : Option σ) (p : DisassemblyPanel)

/-- The instructions that `refresh` asks for. -/
def insns : List InsnRow :=
  iridaDisasm vt s (if p.base ≠ 0 then p.base else iridaPc vt s) rowLimit

/-- `refresh`. -/
def refresh : DisassemblyPanel :=
  let rows := p.insns vt s
  let v := (p.view.setDataColumnHidden 3 (!isLive)).setRows (asInt rows.length)
  let v := fillRows fillInsn rows 0 v
  let rowAddrs := rows.map InsnRow.addr
  let v := fillRows (markInsn (iridaBreakpoints vt s)) rowAddrs 0 v
  { p with
    view := v.setCurrentIpRow (ipRow rowAddrs (iridaPc vt s))
    rowAddrs := rowAddrs }

/-- `setBase`. -/
def setBase (addr : U64) : DisassemblyPanel :=
  { p with base := addr }.refresh vt isLive s

/-- `onCellClicked`: the address whose breakpoint is toggled. -/
def onCellClicked (row col : ℤ) : Option U64 :=
  if col ≠ 0 then none
  else if 0 ≤ row ∧ row < asInt p.rowAddrs.length then p.rowAddrs[row.toNat]? else none

end DisassemblyPanel

/-! ## What the panel is to show -/

/-- The texts of an instruction. -/
structure InsnShownAt (row : InsnRow) (v : IridaTableView 4) (r : ℤ) : Prop where
  address : v.textAt r 0 = some (formatAddress row.addr)
  bytes : v.textAt r 1 = some row.bytes
  text : v.textAt r 2 = some row.text
  annot : v.textAt r 3 = some (row.annot.getD "")

/-- The background of a row is that of its marks. -/
def IridaTableView.Coloured {columns : ℕ} (v : IridaTableView columns) (r : ℤ) : Prop :=
  ∀ col, v.Shows r (v.background r col)

/-- The panel shows these instructions, with the marks of the program counter and of the
breakpoints. -/
structure DisassemblyPanel.Shows (p : DisassemblyPanel) (isLive : Bool) (rows : List InsnRow)
    (pc : U64) (bps : List BreakpointRow) : Prop where
  rowCount : p.view.rowCount = rows.length
  row : ∀ (i : ℕ) row, rows[i]? = some row → InsnShownAt row p.view i
  rowAddrs : p.rowAddrs = rows.map InsnRow.addr
  breakpoint : ∀ (i : ℕ) row, rows[i]? = some row →
    (p.view.isBreakpointRow i = true ↔ ∃ bp ∈ bps, bp.address = row.addr)
  currentIp : ∀ (i : ℕ) row, rows[i]? = some row → (p.view.isCurrentIpRow i = true ↔
    row.addr = pc ∧ ∀ (j : ℕ) row', i < j → rows[j]? = some row' → row'.addr ≠ pc)
  coloured : ∀ i : ℕ, i < rows.length → p.view.Coloured i
  liveValue : p.view.hidden 4 = !isLive

/-! ## The loop over the instructions -/

section Insns

open IridaTableView DisassemblyPanel

theorem InsnShownAt.of_cells {row : InsnRow} {v w : IridaTableView 4} {r : ℤ}
    (h : InsnShownAt row v r) (hcells : w.cells r = v.cells r) : InsnShownAt row w r := by
  have htext : ∀ col, w.textAt r col = v.textAt r col := by
    intro col
    rw [textAt, item, hcells, textAt, item]
  exact ⟨(htext 0).trans h.address, (htext 1).trans h.bytes, (htext 2).trans h.text,
    (htext 3).trans h.annot⟩

theorem fills_fillInsn : Fills fillInsn InsnShownAt where
  rowCount v row i := by
    unfold fillInsn
    cases row.annot <;> simp [setForeground]
  other v row i other r hne hother := by
    apply hother.of_cells
    unfold fillInsn
    cases row.annot <;> simp [setForeground, cells_setCell_of_ne hne, cells_changeRow, hne]
  own v row i hlow hhigh := by
    obtain ⟨cells, hcells⟩ := cells_of_lt hlow hhigh
    unfold fillInsn
    cases hannot : row.annot <;> constructor <;>
      simp [textAt, item, setCell, changeCell, ensureRow, setForeground, cells_changeRow, hcells,
        Function.update, hannot]

end Insns

/-! ## The marks -/

namespace IridaTableView

variable {columns : ℕ} {v : IridaTableView columns} {row r : ℤ}

/-- Nothing but the background of the items of the view is changed. -/
def KeepsTexts (v w : IridaTableView columns) : Prop :=
  ∀ row col text, v.textAt row col = some text → w.textAt row col = some text

theorem KeepsTexts.trans {w x : IridaTableView columns} (h : v.KeepsTexts w)
    (h' : w.KeepsTexts x) : v.KeepsTexts x :=
  fun row col text htext => h' row col text (h row col text htext)

theorem keepsTexts_changeRow {f : RowCells columns → RowCells columns}
    (hf : ∀ cells col it, cells col = some it →
      ∃ it', f cells col = some it' ∧ it'.text = it.text) :
    v.KeepsTexts (v.changeRow r f) := by
  intro row col text htext
  rw [textAt, item, cells_changeRow]
  split
  · rw [textAt, item] at htext
    cases hcells : v.cells row with
    | none => simp [hcells] at htext
    | some cells =>
        obtain ⟨it, hit, rfl⟩ : ∃ it, cells col.succ = some it ∧ it.text = text := by
          simpa [hcells] using htext
        obtain ⟨it', hit', htext'⟩ := hf cells col.succ it hit
        simp [hit', htext']
  · exact htext

theorem keepsTexts_ensureRow (v : IridaTableView columns) (r : ℤ) :
    v.KeepsTexts (v.ensureRow r) :=
  keepsTexts_changeRow fun cells col it hit => ⟨it, by rw [hit, Option.getD_some], rfl⟩

theorem keepsTexts_applyRowBackground (v : IridaTableView columns) (r : ℤ) :
    v.KeepsTexts (v.applyRowBackground r) :=
  keepsTexts_changeRow fun cells col it hit => ⟨_, rfl, by rw [hit, Option.getD_some]⟩

theorem keepsTexts_setBreakpointRow (v : IridaTableView columns) (r : ℤ) (on : Bool) :
    v.KeepsTexts (v.setBreakpointRow r on) := by
  unfold setBreakpointRow
  split
  · exact fun _ _ _ htext => htext
  · have hensure := keepsTexts_ensureRow v r
    exact hensure.trans (keepsTexts_applyRowBackground ((v.ensureRow r).markRow r on) r)

theorem keepsTexts_setCurrentIpRow (v : IridaTableView columns) (r : ℤ) :
    v.KeepsTexts (v.setCurrentIpRow r) := by
  have hmaybe : ∀ (w : IridaTableView columns) (r : ℤ) (P : Prop) [Decidable P],
      w.KeepsTexts (if P then w.applyRowBackground r else w) := by
    intro w r P _
    split
    · exact keepsTexts_applyRowBackground w r
    · exact fun _ _ _ htext => htext
  exact (hmaybe { v with currentIpRow := r } v.currentIpRow _).trans (hmaybe _ r _)

theorem Coloured.congr {w : IridaTableView columns} (h : v.Coloured row)
    (hip : w.currentIpRow = v.currentIpRow)
    (hbp : row ∈ w.breakpointRows ↔ row ∈ v.breakpointRows)
    (hback : ∀ col, w.background row col = v.background row col) : w.Coloured row := by
  intro col
  rw [hback, shows_congr hip hbp]
  exact h col

@[simp] theorem rowCount_setBreakpointRow (r : ℤ) (on : Bool) :
    (v.setBreakpointRow r on).rowCount = v.rowCount := by
  unfold setBreakpointRow
  split
  · rfl
  · rw [applyRowBackground, rowCount_changeRow]
    exact rowCount_changeRow

@[simp] theorem currentIpRow_setBreakpointRow (r : ℤ) (on : Bool) :
    (v.setBreakpointRow r on).currentIpRow = v.currentIpRow := by
  unfold setBreakpointRow
  split
  · rfl
  · rw [applyRowBackground, currentIpRow_changeRow]
    exact currentIpRow_changeRow

theorem mem_setBreakpointRow_of_ne (hne : row ≠ r) (on : Bool) :
    row ∈ (v.setBreakpointRow r on).breakpointRows ↔ row ∈ v.breakpointRows := by
  unfold setBreakpointRow
  split
  · rfl
  · rw [applyRowBackground, breakpointRows_changeRow, mem_markRow on hne, ensureRow,
      breakpointRows_changeRow]

theorem isBreakpointRow_setBreakpointRow (hlow : 0 ≤ r) (hhigh : r < v.rowCount) (on : Bool) :
    (v.setBreakpointRow r on).isBreakpointRow r = on := by
  rw [setBreakpointRow, if_neg (by omega), isBreakpointRow, applyRowBackground,
    breakpointRows_changeRow, markRow]
  cases on <;> simp

theorem coloured_setBreakpointRow_of_ne (hne : row ≠ r) (on : Bool) (h : v.Coloured row) :
    (v.setBreakpointRow r on).Coloured row := by
  apply h.congr (currentIpRow_setBreakpointRow r on) (mem_setBreakpointRow_of_ne hne on)
  intro col
  unfold setBreakpointRow
  split
  · rfl
  · rw [applyRowBackground, background_changeRow_of_ne hne]
    exact background_changeRow_of_ne hne

theorem coloured_applyRowBackground (hlow : 0 ≤ r) (hhigh : r < v.rowCount) :
    (v.applyRowBackground r).Coloured r := by
  intro col
  have hshows : ∀ brush, (v.applyRowBackground r).Shows r brush ↔ v.Shows r brush :=
    shows_congr currentIpRow_changeRow (by rw [applyRowBackground, breakpointRows_changeRow])
  rw [hshows, background_applyRowBackground_self hlow hhigh]
  exact shows_rowColor

theorem coloured_setBreakpointRow (hlow : 0 ≤ r) (hhigh : r < v.rowCount) (on : Bool) :
    (v.setBreakpointRow r on).Coloured r := by
  rw [setBreakpointRow, if_neg (by omega)]
  apply coloured_applyRowBackground hlow
  exact hhigh.trans_eq (rowCount_changeRow).symm

theorem coloured_applyRowBackground_of_ne (hne : row ≠ r) (h : v.Coloured row) :
    (v.applyRowBackground r).Coloured row := by
  unfold IridaTableView.applyRowBackground
  exact h.congr currentIpRow_changeRow (by rw [breakpointRows_changeRow])
    fun col => background_changeRow_of_ne hne

/-- Colouring a row, if there is one, leaves no row the worse. -/
theorem Coloured.applyRowBackground_if (h : v.Coloured row) (hlow : 0 ≤ row)
    (hhigh : row < v.rowCount) (r : ℤ) :
    (if 0 ≤ r ∧ r < v.rowCount then v.applyRowBackground r else v).Coloured row := by
  split
  · by_cases hrow : row = r
    · subst hrow
      exact coloured_applyRowBackground hlow hhigh
    · exact coloured_applyRowBackground_of_ne hrow h
  · exact h

theorem rowCount_applyRowBackground_if (r : ℤ) :
    (if 0 ≤ r ∧ r < v.rowCount then v.applyRowBackground r else v).rowCount = v.rowCount := by
  split
  · exact rowCount_changeRow
  · rfl

theorem Coloured.setCurrentIpRow (h : v.Coloured row) (hlow : 0 ≤ row) (hhigh : row < v.rowCount)
    (r : ℤ) : (v.setCurrentIpRow r).Coloured row := by
  unfold IridaTableView.setCurrentIpRow
  extract_lets previous moved recoloured
  have hcount : recoloured.rowCount = v.rowCount := @rowCount_applyRowBackground_if _ moved previous
  by_cases hrow : row = r
  · subst hrow
    rw [if_pos ⟨hlow, hcount.symm ▸ hhigh⟩]
    exact coloured_applyRowBackground hlow (hcount.symm ▸ hhigh)
  · apply Coloured.applyRowBackground_if _ hlow (hcount.symm ▸ hhigh)
    by_cases hprevious : row = previous
    · have hcoloured : (moved.applyRowBackground previous).Coloured row := by
        subst hprevious
        exact coloured_applyRowBackground hlow hhigh
      have hin : 0 ≤ previous ∧ previous < moved.rowCount := hprevious ▸ ⟨hlow, hhigh⟩
      simpa only [recoloured, if_pos hin] using hcoloured
    · have hmoved : moved.Coloured row := by
        intro col
        have hshow := h col
        simp only [Shows, isCurrentIpRow, show row ≠ v.currentIpRow from hprevious, decide_false]
          at hshow
        simp only [Shows, isCurrentIpRow, moved, hrow, decide_false]
        exact hshow
      exact hmoved.applyRowBackground_if hlow hhigh previous

@[simp] theorem rowCount_setCurrentIpRow (r : ℤ) :
    (v.setCurrentIpRow r).rowCount = v.rowCount := by
  unfold setCurrentIpRow
  rw [rowCount_applyRowBackground_if, rowCount_applyRowBackground_if]
  rfl

@[simp] theorem currentIpRow_setCurrentIpRow (r : ℤ) :
    (v.setCurrentIpRow r).currentIpRow = r := by
  have hmaybe : ∀ (w : IridaTableView columns) (r : ℤ) (P : Prop) [Decidable P],
      (if P then w.applyRowBackground r else w).currentIpRow = w.currentIpRow := by
    intro w r P _
    split
    · exact currentIpRow_changeRow
    · rfl
  unfold setCurrentIpRow
  rw [hmaybe, hmaybe]

@[simp] theorem breakpointRows_setCurrentIpRow (r : ℤ) :
    (v.setCurrentIpRow r).breakpointRows = v.breakpointRows := by
  have hmaybe : ∀ (w : IridaTableView columns) (r : ℤ) (P : Prop) [Decidable P],
      (if P then w.applyRowBackground r else w).breakpointRows = w.breakpointRows := by
    intro w r P _
    split
    · exact breakpointRows_changeRow
    · rfl
  unfold setCurrentIpRow
  rw [hmaybe, hmaybe]

end IridaTableView

/-! ## The loops that `refresh` makes -/

section Loops

open IridaTableView DisassemblyPanel

variable {columns : ℕ} {α : Type*}
  {fill : IridaTableView columns → α → ℕ → IridaTableView columns}

theorem fillRows_same {β : Type*} {f : IridaTableView columns → β}
    (hfill : ∀ v a i, f (fill v a i) = f v) (rows : List α) (i : ℕ) (v : IridaTableView columns) :
    f (fillRows fill rows i v) = f v := by
  induction rows generalizing i v with
  | nil => rfl
  | cons a rows ih => rw [fillRows_cons, ih, hfill]

theorem keepsTexts_fillRows (hfill : ∀ v a i, KeepsTexts v (fill v a i)) (rows : List α) (i : ℕ)
    (v : IridaTableView columns) : v.KeepsTexts (fillRows fill rows i v) := by
  induction rows generalizing i v with
  | nil => exact fun _ _ _ htext => htext
  | cons a rows ih =>
      rw [fillRows_cons]
      exact (hfill v a i).trans (ih (i + 1) _)

/-- A row has the mark of its breakpoint, and is coloured. -/
structure MarkedAt (bps : List BreakpointRow) (addr : U64) (v : IridaTableView 4) (r : ℤ) :
    Prop where
  breakpoint : v.isBreakpointRow r = bps.any fun bp => bp.address = addr
  coloured : v.Coloured r

theorem fills_markInsn (bps : List BreakpointRow) : Fills (markInsn bps) (MarkedAt bps) where
  rowCount v addr i := rowCount_setBreakpointRow _ _
  other v addr i other r hne h := by
    refine ⟨?_, coloured_setBreakpointRow_of_ne hne _ h.coloured⟩
    rw [← h.breakpoint, markInsn, isBreakpointRow,
      decide_eq_decide.mpr (mem_setBreakpointRow_of_ne hne _), isBreakpointRow]
  own v addr i hlow hhigh :=
    ⟨isBreakpointRow_setBreakpointRow hlow hhigh _, coloured_setBreakpointRow hlow hhigh _⟩

theorem ipRow_append (rowAddrs : List U64) (addr pc : U64) :
    ipRow (rowAddrs ++ [addr]) pc =
      if addr = pc then asInt rowAddrs.length else ipRow rowAddrs pc := by
  rw [ipRow, List.zipIdx_append, List.foldl_append, Nat.zero_add]
  rfl

/-- `ip_row` is the last row at the program counter. -/
theorem ipRow_eq_iff (pc : U64) (rowAddrs : List U64) (hint : rowAddrs.length ≤ 2 ^ 31) :
    ipRow rowAddrs pc < rowAddrs.length ∧ ∀ (i : ℕ) addr, rowAddrs[i]? = some addr →
      (i = ipRow rowAddrs pc ↔
        addr = pc ∧ ∀ (j : ℕ) addr', i < j → rowAddrs[j]? = some addr' → addr' ≠ pc) := by
  -- the loop overwrites `ip_row`, so the last row is the one that counts
  induction rowAddrs using List.reverseRecOn with
  | nil => exact ⟨Int.negSucc_lt_zero 0, fun i addr haddr => nomatch haddr⟩
  | append_singleton rowAddrs last ih =>
      rw [List.length_append, List.length_singleton] at hint
      obtain ⟨hlt, hih⟩ := ih (by omega)
      have hlast : (rowAddrs ++ [last])[rowAddrs.length]? = some last := by simp
      rw [ipRow_append, asInt_of_lt (by omega), List.length_append, List.length_singleton]
      refine ⟨by split <;> omega, fun i addr haddr => ?_⟩
      have hi : i < rowAddrs.length + 1 := by
        simpa using (List.getElem?_eq_some_iff.mp haddr).1
      by_cases heq : i = rowAddrs.length
      · -- no row comes after the last one
        subst heq
        obtain rfl : last = addr := Option.some.inj (hlast.symm.trans haddr)
        have hafter : ∀ (j : ℕ) addr', rowAddrs.length < j →
            (rowAddrs ++ [last])[j]? = some addr' → addr' ≠ pc := by
          intro j addr' hj haddr'
          rw [List.getElem?_eq_none (by simp; omega)] at haddr'
          cases haddr'
        split
        · next hpc => exact iff_of_true rfl ⟨hpc, hafter⟩
        · next hpc => exact iff_of_false (by omega) fun h => hpc h.1
      · have hold : rowAddrs[i]? = some addr := by
          rwa [List.getElem?_append_left (by omega)] at haddr
        split
        · next hpc =>
            refine iff_of_false (by omega) fun h => ?_
            exact h.2 rowAddrs.length last (by omega) hlast hpc
        · next hpc =>
            rw [hih i addr hold]
            refine and_congr_right fun _ => forall_congr' fun j => ?_
            by_cases hj : j = rowAddrs.length
            · subst hj
              simp [hpc]
            · by_cases hlow : j < rowAddrs.length
              · rw [List.getElem?_append_left hlow]
              · rw [List.getElem?_eq_none (by omega), List.getElem?_eq_none (by simp; omega)]

@[simp] theorem hidden_changeRow {v : IridaTableView columns} {r : ℤ}
    {f : RowCells columns → RowCells columns} : (v.changeRow r f).hidden = v.hidden := by
  unfold changeRow
  split <;> rfl

theorem hidden_setRows (v : IridaTableView columns) (count : ℤ) :
    (v.setRows count).hidden = v.hidden := by
  unfold setRows
  have hfold : ∀ (rows : List ℤ) (w : IridaTableView columns),
      (rows.foldl (fun v row => v.ensureRow row) w).hidden = w.hidden := by
    intro rows
    induction rows with
    | nil => exact fun w => rfl
    | cons row rows ih => exact fun w => (ih _).trans hidden_changeRow
  rw [hfold, setRowCount]
  split <;> rfl

theorem hidden_setBreakpointRow (v : IridaTableView columns) (r : ℤ) (on : Bool) :
    (v.setBreakpointRow r on).hidden = v.hidden := by
  unfold setBreakpointRow
  split
  · rfl
  · rw [applyRowBackground, hidden_changeRow]
    exact hidden_changeRow

theorem hidden_setCurrentIpRow (v : IridaTableView columns) (r : ℤ) :
    (v.setCurrentIpRow r).hidden = v.hidden := by
  unfold setCurrentIpRow
  dsimp only
  split <;> split <;> simp [applyRowBackground]

theorem hidden_fillInsn (v : IridaTableView 4) (row : InsnRow) (i : ℕ) :
    (fillInsn v row i).hidden = v.hidden := by
  unfold fillInsn
  cases row.annot <;> simp [setForeground, setCell, changeCell, ensureRow]

end Loops

/-! ## What a refresh shows -/

namespace DisassemblyPanel

open IridaTableView

variable {σ : Type*} {vt : ViewVTable σ} {s : Option σ}

/-- **A refresh shows the instructions and both kinds of marks**, whatever the table held
before. -/
theorem shows_refresh (isLive : Bool) (p : DisassemblyPanel)
    (hint : (p.insns vt s).length < 2 ^ 31) :
    (p.refresh vt isLive s).Shows isLive (p.insns vt s) (iridaPc vt s)
      (iridaBreakpoints vt s) := by
  -- the steps of `refresh`: the rows are made, filled, and marked, and the current one last
  let rows := p.insns vt s
  let opened := (p.view.setDataColumnHidden 3 (!isLive)).setRows (asInt rows.length)
  let filled := fillRows fillInsn rows 0 opened
  let rowAddrs := rows.map InsnRow.addr
  let marked := fillRows (markInsn (iridaBreakpoints vt s)) rowAddrs 0 filled
  have hview : (p.refresh vt isLive s).view =
      marked.setCurrentIpRow (ipRow rowAddrs (iridaPc vt s)) := rfl
  have hrows : rows.length < 2 ^ 31 := hint
  have hopened : opened.rowCount = rows.length := rowCount_setRows_asInt _ hrows
  have hfilled : filled.rowCount = rows.length :=
    (fills_fillInsn.rowCount_fillRows rows 0 opened).trans hopened
  have hmarks := fills_markInsn (iridaBreakpoints vt s)
  have hmarked : marked.rowCount = rows.length :=
    (hmarks.rowCount_fillRows rowAddrs 0 filled).trans hfilled
  have hlength : rowAddrs.length = rows.length := List.length_map _
  have haddrs : ∀ {i : ℕ} {row}, rows[i]? = some row → rowAddrs[i]? = some row.addr := by
    intro i row hrow
    rw [List.getElem?_map, hrow, Option.map_some]
  have hat : ∀ {i : ℕ} {row}, rows[i]? = some row →
      MarkedAt (iridaBreakpoints vt s) row.addr marked i := by
    intro i row hrow
    have h := hmarks.fillRows rowAddrs 0 filled (by omega) (by omega) (haddrs hrow)
    rwa [Nat.zero_add] at h
  constructor
  case rowCount => rw [hview, rowCount_setCurrentIpRow, hmarked]
  -- the marks are put on items that keep their texts
  case row =>
    intro i row hrow
    have hshown := fills_fillInsn.fillRows rows 0 opened (by omega) (by omega) hrow
    rw [Nat.zero_add] at hshown
    have hkeeps : filled.KeepsTexts (p.refresh vt isLive s).view :=
      (keepsTexts_fillRows (fun v addr i => keepsTexts_setBreakpointRow v _ _) rowAddrs 0
        filled).trans (keepsTexts_setCurrentIpRow marked _)
    exact ⟨hkeeps _ _ _ hshown.address, hkeeps _ _ _ hshown.bytes, hkeeps _ _ _ hshown.text,
      hkeeps _ _ _ hshown.annot⟩
  case rowAddrs => rfl
  -- whether a row is marked is a matter of its address alone
  case breakpoint =>
    intro i row hrow
    rw [hview, isBreakpointRow, breakpointRows_setCurrentIpRow]
    have hmark := (hat hrow).breakpoint
    rw [isBreakpointRow] at hmark
    rw [hmark]
    simp
  case currentIp =>
    intro i row hrow
    have hip := (ipRow_eq_iff (iridaPc vt s) rowAddrs (by omega)).2 i row.addr (haddrs hrow)
    rw [hview, isCurrentIpRow, currentIpRow_setCurrentIpRow, decide_eq_true_eq, hip]
    refine and_congr_right fun _ => forall_congr' fun j => ?_
    rw [List.getElem?_map]
    cases rows[j]? <;> simp
  -- the row at the program counter is coloured again when the mark moves
  case coloured =>
    intro i hi
    have hi : i < rows.length := hi
    have hrow : rows[i]? = some rows[i] := List.getElem?_eq_getElem hi
    rw [hview]
    exact (hat hrow).coloured.setCurrentIpRow (by omega) (by omega) _
  case liveValue =>
    have hhidden : marked.hidden = opened.hidden :=
      (fillRows_same (fun v addr i => hidden_setBreakpointRow v _ _) rowAddrs 0 filled).trans
        (fillRows_same hidden_fillInsn rows 0 opened)
    rw [hview, hidden_setCurrentIpRow, hhidden, hidden_setRows]
    rfl

end DisassemblyPanel

end Irida.Gui
