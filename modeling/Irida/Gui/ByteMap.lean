import Irida.Base

/-!
# The byte map

`ByteMapStrip` paints an image in a grid of 24 columns, which is stretched to the width of the
widget, and finds the address of a pixel again when it is clicked.  Painting goes by the exact width
of a column, picking by that width rounded down.  `picking_iff` says at which pixels the
two agree.
-/

namespace Irida.Gui

/-- `cols_`. -/
def cols : ℕ := 24

/-- The members of `ByteMapStrip` that the map is drawn from. -/
structure ByteMapStrip where
  start : U64
  stop : U64
  width : ℕ
  height : ℕ
  width_lt : width < 2 ^ 31
  height_lt : height < 2 ^ 31

/-- A cell of the map: the address of its run, and the bytes of the run that could be read. -/
structure Cell where
  addr : U64
  bytes : Bytes
  deriving DecidableEq, Repr

namespace ByteMapStrip

variable (s : ByteMapStrip)

/-! ## The grid -/

/-- `bytesPerRow` before the cast to `int`. -/
def rowSpan : U64 :=
  let total := s.stop - s.start
  -- one pixel row for each screen row
  let rows := BitVec.ofNat 64 (max 1 s.height)
  let perRow := (total + rows - 1) / rows
  let perRow := (perRow + BitVec.ofNat 64 cols - 1) / BitVec.ofNat 64 cols * BitVec.ofNat 64 cols
  if perRow < BitVec.ofNat 64 cols then BitVec.ofNat 64 cols else perRow

/-- `bytesPerRow`. -/
def bytesPerRow : ℤ :=
  if s.stop ≤ s.start ∨ s.height = 0 then cols else (s.rowSpan.setWidth 32).toInt

/-- `colBytes`. -/
def colBytes : ℕ :=
  (max 1 (s.bytesPerRow.tdiv cols)).toNat

/-- `rowAddr`. -/
def rowAddr (y : ℕ) : U64 :=
  s.start + BitVec.ofNat 64 y * BitVec.ofInt 64 s.bytesPerRow

/-- `want`. -/
def want (y : ℕ) : ℕ :=
  min (BitVec.ofInt 64 s.bytesPerRow).toNat (s.stop - s.rowAddr y).toNat

/-! ## Painting -/

section

variable (read : U64 → ℕ → Bytes)

/-- The loop of `rebuildCache` over the columns. -/
def lineCells (y : ℕ) : List (Option Cell) :=
  let got := read (s.rowAddr y) (s.want y)
  (List.range cols).map fun c =>
    let off := c * s.colBytes
    if s.want y ≤ off then none
    else
      some ⟨s.rowAddr y + BitVec.ofNat 64 off,
        (got.drop off).take (min s.colBytes (s.want y - off))⟩

/-- The loop of `rebuildCache` over the rows, which ends where the image does. -/
def paintLines : ℕ → ℕ → List (List (Option Cell))
  | 0, _ => []
  | n + 1, y =>
    if s.stop ≤ s.rowAddr y then []
    else s.lineCells read y :: paintLines n (y + 1)

/-- The cell that is painted in a row and column of the image. -/
def cellAt (y c : ℕ) : Option Cell :=
  ((s.paintLines read s.height 0)[y]?.bind fun row => row[c]?).join

/-- `rebuildCache`, before the image is scaled. -/
def rebuildCache {Rgb : Type*} (colorForRun : Bytes → U64 → Rgb) (background : Rgb) :
    Option (List (List Rgb)) :=
  if s.width = 0 ∨ s.height = 0 ∨ s.stop ≤ s.start then none
  else
    some ((List.range s.height).map fun y => (List.range cols).map fun c =>
      match s.cellAt read y c with
      | none => background
      | some cell => if cell.bytes = [] then background else colorForRun cell.bytes cell.addr)

end

/-- The column of the image that a pixel column shows, once the image is stretched to the width. -/
def shownColumn (x : ℕ) : ℕ :=
  x * cols / s.width

/-! ## Picking -/

/-- The column that `addressAt` takes a pixel column for. -/
def pickedColumn (x : ℤ) : ℕ :=
  let cellW := max 1 (s.width / cols)
  (max 0 (min (x.tdiv cellW) (cols - 1))).toNat

/-- `addressAt`. -/
def addressAt (x y : ℤ) : U64 :=
  if s.stop ≤ s.start then 0
  else
    let row := (max 0 (min y (s.height - 1))).toNat
    let addr :=
      s.rowAddr row + BitVec.ofNat 64 (s.pickedColumn x) * BitVec.ofNat 64 s.colBytes
    if addr < s.stop then addr else s.stop - 1

/-- The pixel is in the column that it shows, or the cell that it shows is none, or the last byte of
the image; and its address does not wrap around. -/
def PicksPainted (x y : ℕ) : Prop :=
  let rowStart := s.start.toNat + y * s.rowSpan.toNat
  let colBytes := s.rowSpan.toNat / cols
  let picked := min (x / max 1 (s.width / cols)) (cols - 1)
  let shown := s.shownColumn x
  s.start < s.stop ∧ rowStart + picked * colBytes < 2 ^ 64 ∧
    (picked = shown ∨ s.stop.toNat ≤ rowStart + shown * colBytes ∨
      rowStart + shown * colBytes + 1 = s.stop.toNat ∧ shown < picked)

instance (x y : ℕ) : Decidable (s.PicksPainted x y) :=
  inferInstanceAs (Decidable (_ ∧ _ ∧ (_ ∨ _ ∨ _ ∧ _)))

/-! ## The grid as numbers -/

variable {s}

theorem le_rowSpan : cols ≤ s.rowSpan.toNat := by
  unfold rowSpan
  dsimp only
  split
  · rfl
  · next h => exact BitVec.not_lt.mp h

section

variable (hrange : s.start < s.stop) (hheight : 0 < s.height) (hfits : s.rowSpan.toNat < 2 ^ 31)

include hrange hheight hfits

theorem bytesPerRow_eq : s.bytesPerRow = s.rowSpan.toNat := by
  have hnot : ¬ (s.stop ≤ s.start ∨ s.height = 0) :=
    not_or.mpr ⟨BitVec.not_le.mpr hrange, hheight.ne'⟩
  have hcast : (s.rowSpan.setWidth 32).toNat = s.rowSpan.toNat := by
    rw [BitVec.toNat_setWidth, Nat.mod_eq_of_lt (by omega)]
  rw [bytesPerRow, if_neg hnot, BitVec.toInt_eq_toNat_of_lt (by omega), hcast]

theorem toNat_ofInt_bytesPerRow : (BitVec.ofInt 64 s.bytesPerRow).toNat = s.rowSpan.toNat := by
  rw [bytesPerRow_eq hrange hheight hfits, BitVec.ofInt_natCast, BitVec.toNat_ofNat,
    Nat.mod_eq_of_lt (by omega)]

theorem colBytes_eq : s.colBytes = s.rowSpan.toNat / cols := by
  have hle := @le_rowSpan s
  have hpos : 1 ≤ s.rowSpan.toNat / cols := Nat.div_pos hle (by decide)
  rw [colBytes, bytesPerRow_eq hrange hheight hfits, Int.tdiv_eq_ediv_of_nonneg (by omega)]
  omega

/-- A row begins where the rows above it end, up to the end of the address space. -/
theorem toNat_rowAddr (y : ℕ) (hy : y < s.height) :
    (s.rowAddr y).toNat = (s.start.toNat + y * s.rowSpan.toNat) % 2 ^ 64 := by
  have hlt := s.height_lt
  rw [rowAddr, BitVec.toNat_add, BitVec.toNat_mul, toNat_ofInt_bytesPerRow hrange hheight hfits,
    BitVec.toNat_ofNat, Nat.mod_eq_of_lt (show y < 2 ^ 64 by omega), Nat.add_mod_mod]

theorem toNat_want {y : ℕ} (hy : s.rowAddr y < s.stop) :
    s.want y = min s.rowSpan.toNat (s.stop.toNat - (s.rowAddr y).toNat) := by
  rw [want, toNat_ofInt_bytesPerRow hrange hheight hfits,
    BitVec.toNat_sub_of_le (BitVec.le_of_lt hy)]

end

/-! ## The cells that are painted -/

section

variable {read : U64 → ℕ → Bytes}

theorem getElem?_lineCells {y c : ℕ} (hc : c < cols) :
    (s.lineCells read y)[c]? = some
      (if s.want y ≤ c * s.colBytes then none
      else
        some ⟨s.rowAddr y + BitVec.ofNat 64 (c * s.colBytes),
          ((read (s.rowAddr y) (s.want y)).drop (c * s.colBytes)).take
            (min s.colBytes (s.want y - c * s.colBytes))⟩) := by
  rw [lineCells, List.getElem?_map, List.getElem?_range hc]
  rfl

/-- A row is painted if it and all rows above it begin inside the image. -/
theorem getElem?_paintLines (n y i : ℕ) :
    (s.paintLines read n y)[i]? =
      if i < n ∧ ∀ j ≤ i, s.rowAddr (y + j) < s.stop then some (s.lineCells read (y + i))
      else none := by
  induction n generalizing y i with
  | zero => simp [paintLines]
  | succ n ih =>
      rw [paintLines]
      by_cases hstop : s.stop ≤ s.rowAddr y
      · rw [if_pos hstop, if_neg, List.getElem?_nil]
        rintro ⟨-, hall⟩
        exact absurd (hall 0 (Nat.zero_le i)) (BitVec.not_lt.mpr hstop)
      · have hfirst : s.rowAddr (y + 0) < s.stop := BitVec.not_le.mp hstop
        rw [if_neg hstop]
        cases i with
        | zero =>
            have hfirst' : ∀ j ≤ 0, s.rowAddr (y + j) < s.stop := by
              intro j hj
              obtain rfl := Nat.le_zero.mp hj
              exact hfirst
            rw [List.getElem?_cons_zero, if_pos ⟨Nat.succ_pos n, hfirst'⟩, Nat.add_zero]
        | succ i =>
            -- the rows below are those of the rest of the loop
            have hrows : (∀ j ≤ i + 1, s.rowAddr (y + j) < s.stop) ↔
                ∀ j ≤ i, s.rowAddr (y + 1 + j) < s.stop := by
              constructor
              · intro h j hj
                rw [Nat.add_assoc, Nat.add_comm 1 j]
                exact h (j + 1) (Nat.succ_le_succ hj)
              · intro h j hj
                cases j with
                | zero => exact hfirst
                | succ j =>
                    have := h j (Nat.le_of_succ_le_succ hj)
                    rwa [Nat.add_assoc, Nat.add_comm 1 j] at this
            have hindex : y + 1 + i = y + (i + 1) := by omega
            rw [List.getElem?_cons_succ, ih, hindex]
            simp only [hrows, Nat.add_lt_add_iff_right]

/-- Where a cell is painted, and what is its address. -/
theorem exists_cellAt_iff {y c : ℕ} (hy : y < s.height) (hc : c < cols) (addr : U64) :
    (∃ cell, s.cellAt read y c = some cell ∧ cell.addr = addr) ↔
      (∀ j ≤ y, s.rowAddr j < s.stop) ∧ c * s.colBytes < s.want y ∧
        addr = s.rowAddr y + BitVec.ofNat 64 (c * s.colBytes) := by
  have hcell : s.cellAt read y c =
      if ∀ j ≤ y, s.rowAddr j < s.stop then ((s.lineCells read y)[c]?).join else none := by
    rw [cellAt, getElem?_paintLines]
    simp only [Nat.zero_add, hy, true_and]
    split <;> rfl
  rw [hcell, getElem?_lineCells hc]
  by_cases hrows : ∀ j ≤ y, s.rowAddr j < s.stop
  · rw [if_pos hrows, Option.join_some]
    by_cases hwant : s.want y ≤ c * s.colBytes
    · rw [if_pos hwant]
      exact iff_of_false (by simp) (fun h => absurd h.2.1 (Nat.not_lt.mpr hwant))
    · rw [if_neg hwant]
      constructor
      · rintro ⟨cell, hsome, rfl⟩
        cases hsome
        exact ⟨hrows, Nat.lt_of_not_le hwant, rfl⟩
      · rintro ⟨-, -, rfl⟩
        exact ⟨_, rfl, rfl⟩
  · rw [if_neg hrows]
    exact iff_of_false (by simp) (fun h => hrows h.1)

end

/-! ## Pixels -/

theorem shownColumn_lt {x : ℕ} (hx : x < s.width) : s.shownColumn x < cols := by
  rw [shownColumn, Nat.div_lt_iff_lt_mul (Nat.zero_lt_of_lt hx), Nat.mul_comm]
  exact Nat.mul_lt_mul_of_pos_left hx (by decide)

theorem pickedColumn_natCast (x : ℕ) :
    s.pickedColumn x = min (x / max 1 (s.width / cols)) (cols - 1) := by
  have hcols : ((cols - 1 : ℕ) : ℤ) = (cols : ℤ) - 1 := rfl
  rw [pickedColumn, ← hcols, Int.tdiv_eq_ediv_of_nonneg (Int.natCast_nonneg x), ← Int.natCast_ediv]
  generalize x / max 1 (s.width / cols) = column
  omega

theorem pickedColumn_lt (x : ℕ) : s.pickedColumn x < cols := by
  rw [pickedColumn_natCast]
  exact (Nat.min_le_right _ _).trans_lt (by decide)

theorem mul_colBytes_lt {c : ℕ} (hc : c < cols) :
    c * (s.rowSpan.toNat / cols) < s.rowSpan.toNat := by
  have hpos : 0 < s.rowSpan.toNat / cols := Nat.div_pos le_rowSpan (by decide)
  calc c * (s.rowSpan.toNat / cols)
      < cols * (s.rowSpan.toNat / cols) := Nat.mul_lt_mul_of_pos_right hc hpos
    _ ≤ s.rowSpan.toNat := Nat.mul_div_le ..

theorem picked_offset_lt (hfits : s.rowSpan.toNat < 2 ^ 31) {y : ℕ} (hy : y < s.height) (x : ℕ) :
    y * s.rowSpan.toNat + s.pickedColumn x * (s.rowSpan.toNat / cols) < 2 ^ 64 := by
  have hheight := s.height_lt
  have hcolumn : s.pickedColumn x * (s.rowSpan.toNat / cols) < s.rowSpan.toNat :=
    mul_colBytes_lt (pickedColumn_lt x)
  calc y * s.rowSpan.toNat + s.pickedColumn x * (s.rowSpan.toNat / cols)
      ≤ 2 ^ 31 * 2 ^ 31 + 2 ^ 31 :=
        Nat.add_le_add (Nat.mul_le_mul (by omega) hfits.le) (hcolumn.trans hfits).le
    _ < 2 ^ 64 := by decide

section

variable (hrange : s.start < s.stop) (hfits : s.rowSpan.toNat < 2 ^ 31) {x y : ℕ}
  (hy : y < s.height)

include hrange hfits hy

/-- The address that is picked: where the picked cell begins, up to the end of the image. -/
theorem toNat_addressAt :
    (s.addressAt x y).toNat =
      let addr := (s.start.toNat + y * s.rowSpan.toNat +
        s.pickedColumn x * (s.rowSpan.toNat / cols)) % 2 ^ 64
      if addr < s.stop.toNat then addr else s.stop.toNat - 1 := by
  have hheight : 0 < s.height := Nat.zero_lt_of_lt hy
  have hrow : (max 0 (min (y : ℤ) (s.height - 1))).toNat = y := by omega
  have hcolBytes := colBytes_eq hrange hheight hfits
  have hmul : s.pickedColumn x * s.colBytes < 2 ^ 64 := by
    rw [hcolBytes]
    exact (Nat.le_add_left _ _).trans_lt (picked_offset_lt hfits hy x)
  have haddr :
      (s.rowAddr y + BitVec.ofNat 64 (s.pickedColumn x) * BitVec.ofNat 64 s.colBytes).toNat =
      (s.start.toNat + y * s.rowSpan.toNat +
        s.pickedColumn x * (s.rowSpan.toNat / cols)) % 2 ^ 64 := by
    rw [← BitVec.ofNat_mul, BitVec.toNat_add, toNat_rowAddr hrange hheight hfits y hy,
      BitVec.toNat_ofNat, Nat.mod_eq_of_lt hmul, hcolBytes, Nat.mod_add_mod]
  have hstop : (s.stop - 1).toNat = s.stop.toNat - 1 := by
    have hpos : s.start.toNat < s.stop.toNat := hrange
    have hone : (1 : U64) ≤ s.stop := BitVec.le_def.mpr (show 1 ≤ s.stop.toNat by omega)
    exact BitVec.toNat_sub_of_le hone
  rw [addressAt, if_neg (BitVec.not_le.mpr hrange), hrow]
  dsimp only
  rw [← haddr]
  by_cases hlt : s.rowAddr y +
      BitVec.ofNat 64 (s.pickedColumn x) * BitVec.ofNat 64 s.colBytes < s.stop
  · rw [if_pos hlt, if_pos (BitVec.lt_def.mp hlt)]
  · rw [if_neg hlt, if_neg (mt BitVec.lt_def.mpr hlt), hstop]

theorem toNat_rowAddr_of_lt (hrow : s.start.toNat + y * s.rowSpan.toNat < 2 ^ 64) {j : ℕ}
    (hj : j ≤ y) : (s.rowAddr j).toNat = s.start.toNat + j * s.rowSpan.toNat := by
  have hle := Nat.mul_le_mul_right s.rowSpan.toNat hj
  rw [toNat_rowAddr hrange (Nat.zero_lt_of_lt hy) hfits j (by omega), Nat.mod_eq_of_lt (by omega)]

/-- All rows up to one that does not wrap around begin inside the image if that one does. -/
theorem rows_lt_iff (hrow : s.start.toNat + y * s.rowSpan.toNat < 2 ^ 64) :
    (∀ j ≤ y, s.rowAddr j < s.stop) ↔
      s.start.toNat + y * s.rowSpan.toNat < s.stop.toNat := by
  have hat := @toNat_rowAddr_of_lt s hrange hfits y hy hrow
  constructor
  · intro h
    rw [← hat (le_refl y)]
    exact h y (le_refl y)
  · intro h j hj
    have hle := Nat.mul_le_mul_right s.rowSpan.toNat hj
    rw [BitVec.lt_def, hat hj]
    omega

/-- Where the row does not wrap around, a cell is painted exactly if it begins inside the image. -/
theorem exists_cellAt_iff_lt (hrow : s.start.toNat + y * s.rowSpan.toNat < 2 ^ 64)
    {read : U64 → ℕ → Bytes} {c : ℕ} (hc : c < cols) (addr : U64) :
    (∃ cell, s.cellAt read y c = some cell ∧ cell.addr = addr) ↔
      s.start.toNat + y * s.rowSpan.toNat + c * (s.rowSpan.toNat / cols) < s.stop.toNat ∧
        addr.toNat = s.start.toNat + y * s.rowSpan.toNat + c * (s.rowSpan.toNat / cols) := by
  have hheight : 0 < s.height := Nat.zero_lt_of_lt hy
  have hstop := s.stop.isLt
  have hat := toNat_rowAddr_of_lt hrange hfits hy hrow (le_refl y)
  have hcell : c * (s.rowSpan.toNat / cols) < s.rowSpan.toNat := mul_colBytes_lt hc
  rw [exists_cellAt_iff hy hc, rows_lt_iff hrange hfits hy hrow, colBytes_eq hrange hheight hfits]
  by_cases hinside : s.start.toNat + y * s.rowSpan.toNat < s.stop.toNat
  · have hlt : s.rowAddr y < s.stop := by
      rw [BitVec.lt_def, hat]
      exact hinside
    have haddr : s.start.toNat + y * s.rowSpan.toNat + c * (s.rowSpan.toNat / cols) < s.stop.toNat →
        (s.rowAddr y + BitVec.ofNat 64 (c * (s.rowSpan.toNat / cols))).toNat =
          s.start.toNat + y * s.rowSpan.toNat + c * (s.rowSpan.toNat / cols) := fun h => by
      rw [BitVec.toNat_add, hat, BitVec.toNat_ofNat, Nat.add_mod_mod,
        Nat.mod_eq_of_lt (by omega)]
    rw [toNat_want hrange hheight hfits hlt, hat]
    constructor
    · rintro ⟨-, hwant, rfl⟩
      have hend : s.start.toNat + y * s.rowSpan.toNat + c * (s.rowSpan.toNat / cols) <
          s.stop.toNat := by omega
      exact ⟨hend, haddr hend⟩
    · rintro ⟨hend, heq⟩
      exact ⟨hinside, by omega, BitVec.eq_of_toNat_eq (heq.trans (haddr hend).symm)⟩
  · exact iff_of_false (fun h => hinside h.1) (fun h => by omega)

/-- Where a cell is shown, an address is that of the cell exactly if it is where the cell begins. -/
theorem matches_shown_iff (hx : x < s.width) (read : U64 → ℕ → Bytes)
    (hcell : s.start.toNat + y * s.rowSpan.toNat + s.shownColumn x * (s.rowSpan.toNat / cols) <
      s.stop.toNat) (addr : U64) :
    (∀ cell, s.cellAt read y (s.shownColumn x) = some cell → addr = cell.addr) ↔
      addr.toNat = s.start.toNat + y * s.rowSpan.toNat +
        s.shownColumn x * (s.rowSpan.toNat / cols) := by
  have hstop := s.stop.isLt
  have hshown := @exists_cellAt_iff_lt s hrange hfits y hy (by omega) read _ (shownColumn_lt hx)
  constructor
  · intro h
    obtain ⟨cell, hsome, hat⟩ := (hshown (BitVec.ofNat 64 _)).mpr
      ⟨hcell, by rw [BitVec.toNat_ofNat, Nat.mod_eq_of_lt (hcell.trans hstop)]⟩
    rw [h cell hsome, hat, BitVec.toNat_ofNat, Nat.mod_eq_of_lt (hcell.trans hstop)]
  · intro h cell hsome
    exact BitVec.eq_of_toNat_eq (h.trans ((hshown cell.addr).mp ⟨cell, hsome, rfl⟩).2.symm)

end

/-- Two columns lead to the same address inside the image if they are the same, or if the second one
is past the end and the first one begins at the last byte. -/
theorem picked_eq_iff {rowStart size stop picked shown : ℕ} (hsize : 0 < size)
    (hshown : rowStart + shown * size < stop) :
    (if rowStart + picked * size < stop then rowStart + picked * size else stop - 1) =
        rowStart + shown * size ↔
      picked = shown ∨ rowStart + shown * size + 1 = stop ∧ shown < picked := by
  split
  · next hpicked =>
      have hsame : rowStart + picked * size = rowStart + shown * size ↔ picked = shown := by
        rw [Nat.add_left_cancel_iff, Nat.mul_left_inj hsize.ne']
      rw [hsame]
      constructor
      · exact Or.inl
      · rintro (heq | ⟨hlast, hlt⟩)
        · exact heq
        · -- the next column is past the end
          have hnext := Nat.mul_lt_mul_of_pos_right hlt hsize
          omega
  · next hpicked =>
      constructor
      · intro hlast
        refine Or.inr ⟨by omega, ?_⟩
        by_contra hle
        have := Nat.mul_le_mul_right size (Nat.le_of_not_lt hle)
        omega
      · rintro (rfl | ⟨hlast, -⟩)
        · exact absurd hshown hpicked
        · omega

/-- **Where picking matches painting.**  At a pixel of the widget, the address that is picked is
that of the cell that is shown there, and lies in the image, exactly if the columns of picking and
painting are the same or the difference does not show at the end of the image, and the address does
not wrap around. -/
theorem picking_iff (hfits : s.rowSpan.toNat < 2 ^ 31) (read : U64 → ℕ → Bytes) {x y : ℕ}
    (hx : x < s.width) (hy : y < s.height) :
    ((∀ cell, s.cellAt read y (s.shownColumn x) = some cell → s.addressAt x y = cell.addr) ∧
        s.start ≤ s.addressAt x y ∧ s.addressAt x y < s.stop) ↔
      s.PicksPainted x y := by
  by_cases hrange : s.start < s.stop
  swap
  · -- there is no image
    refine iff_of_false (fun h => hrange ?_) (fun h => hrange h.1)
    exact BitVec.lt_def.mpr ((BitVec.le_def.mp h.2.1).trans_lt (BitVec.lt_def.mp h.2.2))
  have haddr := toNat_addressAt hrange hfits (x := x) hy
  have hsize : 0 < s.rowSpan.toNat / cols := Nat.div_pos le_rowSpan (by decide)
  have hstart : s.start.toNat < s.stop.toNat := hrange
  have hstop := s.stop.isLt
  -- the offset of the pixel wraps around at most once
  have hoffset := picked_offset_lt hfits hy x
  unfold PicksPainted
  rw [← pickedColumn_natCast, BitVec.le_def, BitVec.lt_def]
  dsimp only at haddr ⊢
  by_cases hwrap : s.start.toNat + y * s.rowSpan.toNat +
      s.pickedColumn x * (s.rowSpan.toNat / cols) < 2 ^ 64
  · rw [Nat.mod_eq_of_lt hwrap] at haddr
    have hinside : s.start.toNat ≤ (s.addressAt x y).toNat ∧
        (s.addressAt x y).toNat < s.stop.toNat := by
      rw [haddr]
      split <;> omega
    by_cases hcell : s.start.toNat + y * s.rowSpan.toNat +
        s.shownColumn x * (s.rowSpan.toNat / cols) < s.stop.toNat
    · rw [matches_shown_iff hrange hfits hy hx read hcell, haddr, picked_eq_iff hsize hcell]
      rw [haddr] at hinside
      exact ⟨fun h => ⟨hrange, hwrap, h.1.imp_right Or.inr⟩, fun h =>
        ⟨h.2.2.imp_right fun h => h.resolve_left (Nat.not_le.mpr hcell), hinside⟩⟩
    · -- nothing is painted there
      have hnone : ∀ cell, s.cellAt read y (s.shownColumn x) = some cell →
          s.addressAt x y = cell.addr := fun cell hsome =>
        absurd ((exists_cellAt_iff_lt hrange hfits hy (by omega) (shownColumn_lt hx)
          cell.addr).mp ⟨cell, hsome, rfl⟩).1 hcell
      exact iff_of_true ⟨hnone, hinside⟩
        ⟨hrange, hwrap, Or.inr (Or.inl (Nat.le_of_not_lt hcell))⟩
  · refine iff_of_false (fun h => ?_) (fun h => hwrap h.2.1)
    rw [haddr, Nat.mod_eq_sub_mod (Nat.le_of_not_lt hwrap), Nat.mod_eq_of_lt (by omega),
      if_pos (by omega)] at h
    omega

/-- Where the columns divide the width, a pixel is picked in the column that it shows. -/
theorem picksPainted_iff_of_dvd (hrange : s.start < s.stop) (hdvd : cols ∣ s.width) {x : ℕ}
    (hx : x < s.width) (y : ℕ) :
    s.PicksPainted x y ↔
      s.start.toNat + y * s.rowSpan.toNat + s.shownColumn x * (s.rowSpan.toNat / cols) <
        2 ^ 64 := by
  obtain ⟨cellW, hwidth⟩ := hdvd
  have hpos : 0 < cellW := by
    rw [hwidth] at hx
    exact Nat.pos_of_mul_pos_left (Nat.zero_lt_of_lt hx)
  have hcellW : max 1 (s.width / cols) = cellW := by
    rw [hwidth, Nat.mul_div_cancel_left cellW (by decide), max_eq_right hpos]
  have hcolumn : s.shownColumn x = x / cellW := by
    rw [shownColumn, hwidth, Nat.mul_comm x, Nat.mul_div_mul_left x cellW (by decide)]
  have hpicked : min (x / max 1 (s.width / cols)) (cols - 1) = s.shownColumn x := by
    rw [hcellW, ← hcolumn]
    exact min_eq_left (Nat.le_sub_one_of_lt (shownColumn_lt hx))
  unfold PicksPainted
  simp only [hpicked, hrange, true_and, true_or, and_true]

end ByteMapStrip

/-- A strip as wide as the byte map, with 240 bytes in its only row. -/
def slimStrip : ByteMapStrip where
  start := 0x1000
  stop := 0x10F0
  width := 64
  height := 1
  width_lt := by decide
  height_lt := by decide

/-- A pixel at which picking and painting agree. -/
theorem picking_iff_slimStrip :
    ((∀ cell, slimStrip.cellAt (fun _ _ => []) 0 (slimStrip.shownColumn 1) = some cell →
        slimStrip.addressAt (1 : ℕ) (0 : ℕ) = cell.addr) ∧
      slimStrip.start ≤ slimStrip.addressAt (1 : ℕ) (0 : ℕ) ∧
      slimStrip.addressAt (1 : ℕ) (0 : ℕ) < slimStrip.stop) ↔ slimStrip.PicksPainted 1 0 :=
  ByteMapStrip.picking_iff (by decide) (fun _ _ => []) (by decide) (by decide)

/-- At pixel column 50 the strip shows its column 18, and the last column is picked. -/
theorem not_picking_slimStrip :
    ¬ ∀ (s : ByteMapStrip) (read : U64 → ℕ → Bytes) (x y : ℕ), s.start < s.stop →
      s.rowSpan.toNat < 2 ^ 31 → x < s.width → y < s.height →
      ∀ cell, s.cellAt read y (s.shownColumn x) = some cell → s.addressAt x y = cell.addr := by
  intro h
  have hcell : slimStrip.cellAt (fun _ _ => []) 0 (slimStrip.shownColumn 50) =
      some ⟨0x10B4, []⟩ := by decide
  have hpick := h slimStrip (fun _ _ => []) 50 0 (by decide) (by decide) (by decide) (by decide) _
    hcell
  revert hpick
  decide

end Irida.Gui
