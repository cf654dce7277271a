import Irida.Base
import Irida.Lib.Runs

/-!
# The string scanner

`scan_strings` of `core/binfmt`: one pass over the data for runs of printable bytes, and one for
runs of printable bytes that each have a zero byte behind them.

Each pass reports exactly the maximal runs that are long enough, in order (`scanStrings_exact`).
For the second pass this rests on the fact that two neighbouring positions do not both hold a
character: the zero byte of the one would be the printable byte of the other.

A string is reported at `base_addr` plus its offset in the data.  So its address is the address of
its bytes only if the data lies in memory from `base_addr` on as it lies in the buffer that is
scanned.
-/

namespace Irida.Binfmt

/-- `FoundString`. -/
structure FoundString where
  addr : U64
  text : Bytes
  utf16 : Bool
  deriving DecidableEq, Repr

/-- `is_printable`. -/
def isPrintable (c : Byte) : Bool :=
  0x20 ≤ c && c ≤ 0x7E

/-- The ASCII pass of `scan_strings`, from `i` on. -/
def asciiPass (data : Bytes) (baseAddr : U64) (minLen i : ℕ) : List FoundString :=
  if i < data.length then
    let text := (data.drop i).takeWhile isPrintable
    -- the byte that ends the run is skipped
    let later := asciiPass data baseAddr minLen (i + text.length + 1)
    if minLen ≤ text.length then ⟨baseAddr + BitVec.ofNat 64 i, text, false⟩ :: later else later
  else []
termination_by data.length - i

/-- The characters that the inner loop of the UTF-16 pass collects. -/
def utf16Run : Bytes → Bytes
  | lo :: hi :: rest => if hi = 0 ∧ isPrintable lo then lo :: utf16Run rest else []
  | _ => []

/-- The UTF-16LE pass of `scan_strings`, from `i` on. -/
def utf16Pass (data : Bytes) (baseAddr : U64) (minLen i : ℕ) : List FoundString :=
  if i + 1 < data.length then
    let text := utf16Run (data.drop i)
    let j := i + 2 * text.length
    let later := utf16Pass data baseAddr minLen (if i < j then j else i + 1)
    if minLen ≤ text.length then ⟨baseAddr + BitVec.ofNat 64 i, text, true⟩ :: later else later
  else []
termination_by data.length - i
decreasing_by split <;> omega

/-- `scan_strings`. -/
def scanStrings (data : Bytes) (baseAddr : U64) (minLen : ℕ) : List FoundString :=
  asciiPass data baseAddr minLen 0 ++ utf16Pass data baseAddr minLen 0

/-- A run of printable bytes that no printable byte precedes or follows. -/
structure PrintableRun (data : Bytes) (start : ℕ) (text : Bytes) : Prop where
  text_eq : text = (data.drop start).takeWhile isPrintable
  start_lt : start < data.length
  first : ∀ b, 0 < start → data[start - 1]? = some b → isPrintable b = false

namespace PrintableRun

variable {data : Bytes} {start : ℕ} {text : Bytes}

theorem take_drop (h : PrintableRun data start text) :
    (data.drop start).take text.length = text := by
  have hprefix : text <+: data.drop start := h.text_eq ▸ List.takeWhile_prefix _
  exact (List.prefix_iff_eq_take.mp hprefix).symm

end PrintableRun

/-! ## The characters of the two passes -/

/-- A printable byte. -/
def PrintableAt (data : Bytes) (i : ℕ) : Prop :=
  ∃ b, data[i]? = some b ∧ isPrintable b = true

/-- A printable byte with a zero byte behind it. -/
def WideAt (data : Bytes) (i : ℕ) : Prop :=
  PrintableAt data i ∧ data[i + 1]? = some 0

/-- The bytes of a run. -/
def textAt (data : Bytes) (stride start len : ℕ) : Bytes :=
  (List.range len).map fun j => data.getD (start + stride * j) 0

/-- A run as it is reported. -/
def foundAt (data : Bytes) (baseAddr : U64) (stride : ℕ) (utf16 : Bool) (run : ℕ × ℕ) :
    FoundString :=
  ⟨baseAddr + BitVec.ofNat 64 run.1, textAt data stride run.1 run.2, utf16⟩

theorem not_printableAt {data : Bytes} {i : ℕ} (h : data.length ≤ i) : ¬ PrintableAt data i := by
  rintro ⟨b, hb, -⟩
  rw [List.getElem?_eq_none h] at hb
  cases hb

/-- The zero byte of a character is not the printable byte of another one. -/
theorem sparse_wideAt (data : Bytes) : Runs.Sparse (WideAt data) 2 := by
  rintro i t ⟨-, hzero⟩ hpos hlt ⟨⟨b, hb, hprintable⟩, -⟩
  obtain rfl : t = 1 := by omega
  rw [hzero] at hb
  cases hb
  exact absurd hprintable (by decide)

@[simp] theorem printableAt_drop {data : Bytes} {n i : ℕ} :
    PrintableAt (data.drop n) i ↔ PrintableAt data (n + i) := by
  simp [PrintableAt, List.getElem?_drop]

@[simp] theorem wideAt_drop {data : Bytes} {n i : ℕ} :
    WideAt (data.drop n) i ↔ WideAt data (n + i) := by
  simp [WideAt, List.getElem?_drop, Nat.add_assoc]

theorem textAt_drop (data : Bytes) (stride n start len : ℕ) :
    textAt (data.drop n) stride start len = textAt data stride (n + start) len := by
  simp [textAt, List.getD_eq_getElem?_getD, List.getElem?_drop, Nat.add_assoc]

theorem textAt_succ (data : Bytes) (stride start len : ℕ) :
    textAt data stride start (len + 1) =
      data.getD start 0 :: textAt data stride (start + stride) len := by
  simp only [textAt, List.range_succ_eq_map, List.map_cons, List.map_map, Nat.mul_zero,
    Nat.add_zero]
  refine congrArg _ (List.map_congr_left fun j _ => ?_)
  rw [Function.comp_apply, Nat.mul_succ]
  congr 1
  omega

/-- The longest prefix of printable bytes is a run. -/
theorem takeWhile_spec (l : Bytes) :
    (∀ j < (l.takeWhile isPrintable).length, PrintableAt l j) ∧
      ¬ PrintableAt l (l.takeWhile isPrintable).length ∧
      l.takeWhile isPrintable = textAt l 1 0 (l.takeWhile isPrintable).length := by
  induction l with
  | nil => exact ⟨fun j hj => absurd hj (Nat.not_lt_zero j), not_printableAt (le_refl 0), rfl⟩
  | cons b l ih =>
      have hshift : ∀ j, PrintableAt (b :: l) (j + 1) ↔ PrintableAt l j := by
        simp [PrintableAt]
      obtain ⟨hholds, hstops, htext⟩ := ih
      by_cases hb : isPrintable b = true
      · rw [List.takeWhile_cons_of_pos hb, List.length_cons]
        refine ⟨fun j hj => ?_, fun h => hstops ((hshift _).mp h), ?_⟩
        · cases j with
          | zero => exact ⟨b, rfl, hb⟩
          | succ j => exact (hshift j).mpr (hholds j (by omega))
        · have hrest := textAt_drop (b :: l) 1 1 0 (l.takeWhile isPrintable).length
          rw [textAt_succ, ← hrest]
          exact congrArg _ htext
      · rw [List.takeWhile_cons_of_neg hb]
        refine ⟨fun j hj => absurd hj (Nat.not_lt_zero j), ?_, rfl⟩
        rintro ⟨b', hb', hprintable⟩
        obtain rfl : b = b' := by simpa using hb'
        exact hb hprintable

/-- What the inner loop of the UTF-16 pass collects is a run. -/
theorem utf16Run_spec (l : Bytes) :
    (∀ j < (utf16Run l).length, WideAt l (2 * j)) ∧ ¬ WideAt l (2 * (utf16Run l).length) ∧
      utf16Run l = textAt l 2 0 (utf16Run l).length := by
  fun_induction utf16Run l with
  | case1 lo hi rest hwide ih =>
      obtain ⟨hholds, hstops, htext⟩ := ih
      have hshift : ∀ j, WideAt (lo :: hi :: rest) (2 + j) ↔ WideAt rest j :=
        fun j => wideAt_drop.symm
      rw [List.length_cons]
      refine ⟨fun j hj => ?_, fun h => hstops ((hshift _).mp ?_), ?_⟩
      · cases j with
        | zero => exact ⟨⟨lo, rfl, hwide.2⟩, congrArg some hwide.1⟩
        | succ j =>
            rw [Nat.mul_succ, Nat.add_comm]
            exact (hshift _).mpr (hholds j (by omega))
      · rwa [Nat.mul_succ, Nat.add_comm] at h
      · have hrest := textAt_drop (lo :: hi :: rest) 2 2 0 (utf16Run rest).length
        rw [textAt_succ, ← hrest]
        exact congrArg _ htext
  | case2 lo hi rest hnot =>
      refine ⟨fun j hj => absurd hj (Nat.not_lt_zero j), ?_, rfl⟩
      rintro ⟨⟨b, hb, hprintable⟩, hzero⟩
      obtain rfl : lo = b := by simpa using hb
      exact hnot ⟨by simpa using hzero, hprintable⟩
  | case3 l hshort =>
      refine ⟨fun j hj => absurd hj (Nat.not_lt_zero j), ?_, rfl⟩
      rintro ⟨⟨b, hb, -⟩, hzero⟩
      match l, hb, hzero with
      | [_], _, hzero => cases hzero
      | lo :: hi :: rest, _, _ => exact hshort lo hi rest rfl

/-! ## The two passes -/

section Passes

variable {data : Bytes} {baseAddr : U64} {minLen : ℕ}

theorem filter_step (hmin : 1 ≤ minLen) (i k : ℕ) (runs : List (ℕ × ℕ)) :
    (if k = 0 then runs else (i, k) :: runs).filter (fun r => minLen ≤ r.2) =
      if minLen ≤ k then (i, k) :: runs.filter (fun r => minLen ≤ r.2)
      else runs.filter fun r => minLen ≤ r.2 := by
  split
  · rw [if_neg (by omega)]
  · rw [List.filter_cons]
    simp

/-- The ASCII pass reports the maximal runs of printable bytes. -/
theorem asciiPass_spec (baseAddr : U64) (hmin : 1 ≤ minLen) {i : ℕ}
    (hclean : Runs.Clean (PrintableAt data) 1 i) :
    ∃ runs, Runs.Lists (PrintableAt data) 1 i runs ∧ asciiPass data baseAddr minLen i =
      (runs.filter fun r => minLen ≤ r.2).map (foundAt data baseAddr 1 false) := by
  induction hn : data.length - i using Nat.strong_induction_on generalizing i with
  | _ n ih =>
      rw [asciiPass]
      by_cases hi : i < data.length
      swap
      · rw [if_neg hi]
        exact ⟨[], .nil fun s hs => not_printableAt (by omega), rfl⟩
      rw [if_pos hi]
      obtain ⟨hholds, hstops, htext⟩ := takeWhile_spec (data.drop i)
      generalize (data.drop i).takeWhile isPrintable = text at hholds hstops htext ⊢
      have hrun : ∀ j < text.length, PrintableAt data (i + 1 * j) := by
        simpa using hholds
      have hend : ¬ PrintableAt data (i + 1 * text.length) := by simpa using hstops
      have hnext : Runs.Clean (PrintableAt data) 1 (i + text.length + 1) := by
        have hbehind := hclean.behind (Runs.sparse_one _) hrun hend
        simpa using hbehind.succ Nat.one_pos hend
      obtain ⟨runs, hlists, hlater⟩ := ih _ (by omega) hnext rfl
      refine ⟨_, .step Nat.one_pos (Runs.sparse_one _) hclean hrun hend (by omega) (by omega)
        hlists, ?_⟩
      rw [textAt_drop, Nat.add_zero] at htext
      dsimp only
      rw [filter_step hmin, hlater]
      split
      · rw [List.map_cons, foundAt, ← htext]
      · rfl

/-- The UTF-16 pass reports the maximal runs of printable bytes with zero bytes behind them, at
even and odd offsets. -/
theorem utf16Pass_spec (baseAddr : U64) (hmin : 1 ≤ minLen) {i : ℕ}
    (hclean : Runs.Clean (WideAt data) 2 i) :
    ∃ runs, Runs.Lists (WideAt data) 2 i runs ∧ utf16Pass data baseAddr minLen i =
      (runs.filter fun r => minLen ≤ r.2).map (foundAt data baseAddr 2 true) := by
  induction hn : data.length - i using Nat.strong_induction_on generalizing i with
  | _ n ih =>
      rw [utf16Pass]
      by_cases hi : i + 1 < data.length
      swap
      · rw [if_neg hi]
        refine ⟨[], .nil ?_, rfl⟩
        rintro s hs ⟨-, hzero⟩
        rw [List.getElem?_eq_none (by omega)] at hzero
        cases hzero
      rw [if_pos hi]
      obtain ⟨hholds, hstops, htext⟩ := utf16Run_spec (data.drop i)
      generalize utf16Run (data.drop i) = text at hholds hstops htext ⊢
      have hrun : ∀ j < text.length, WideAt data (i + 2 * j) := by
        simpa using hholds
      have hend : ¬ WideAt data (i + 2 * text.length) := by simpa using hstops
      have hbehind := hclean.behind (sparse_wideAt data) hrun hend
      have hnext : Runs.Clean (WideAt data) 2
          (if i < i + 2 * text.length then i + 2 * text.length else i + 1) := by
        split
        · exact hbehind
        · next hempty =>
            have hlen : text.length = 0 := by omega
            rw [hlen] at hend
            exact hclean.succ Nat.two_pos hend
      obtain ⟨runs, hlists, hlater⟩ := ih _ (by split <;> omega) hnext rfl
      refine ⟨_, .step Nat.two_pos (sparse_wideAt data) hclean hrun hend (by split <;> omega)
        (by split <;> omega) hlists, ?_⟩
      rw [textAt_drop, Nat.add_zero] at htext
      dsimp only
      rw [filter_step hmin, hlater]
      split
      · rw [List.map_cons, foundAt, ← htext]
      · rfl

/-- **The scanner is exact**: it reports first the maximal runs of printable bytes, and then those
of printable bytes with zero bytes behind them, each in the order of the data and each with at least
`minLen` characters. -/
theorem scanStrings_exact (data : Bytes) (baseAddr : U64) (hmin : 1 ≤ minLen) :
    ∃ ascii utf16 : List (ℕ × ℕ),
      scanStrings data baseAddr minLen = ascii.map (foundAt data baseAddr 1 false) ++
        utf16.map (foundAt data baseAddr 2 true) ∧
      ascii.Pairwise (fun r r' => r.1 < r'.1) ∧ utf16.Pairwise (fun r r' => r.1 < r'.1) ∧
      (∀ start len, (start, len) ∈ ascii ↔
        minLen ≤ len ∧ Runs.Maximal (PrintableAt data) 1 start len) ∧
      ∀ start len, (start, len) ∈ utf16 ↔
        minLen ≤ len ∧ Runs.Maximal (WideAt data) 2 start len := by
  obtain ⟨ascii, hascii, hfound⟩ := asciiPass_spec baseAddr hmin
    (Runs.Clean.zero (P := PrintableAt data) Nat.one_pos)
  obtain ⟨utf16, hutf16, hfound'⟩ := utf16Pass_spec baseAddr hmin
    (Runs.Clean.zero (P := WideAt data) Nat.two_pos)
  refine ⟨_, _, by rw [scanStrings, hfound, hfound'], hascii.sorted.filter _,
    hutf16.sorted.filter _, fun start len => ?_, fun start len => ?_⟩
  · simp [hascii.mem_iff, and_comm]
  · simp [hutf16.mem_iff, and_comm]

/-- The word behind a zero byte starts at an odd offset. -/
theorem scanStrings_exact_odd :
    1 ≤ 2 ∧ ∃ ascii utf16 : List (ℕ × ℕ),
      scanStrings [0, 0x48, 0, 0x69, 0, 0] 0 2 =
        ascii.map (foundAt [0, 0x48, 0, 0x69, 0, 0] 0 1 false) ++
          utf16.map (foundAt [0, 0x48, 0, 0x69, 0, 0] 0 2 true) ∧
      ascii.Pairwise (fun r r' => r.1 < r'.1) ∧ utf16.Pairwise (fun r r' => r.1 < r'.1) ∧
      (∀ start len, (start, len) ∈ ascii ↔
        2 ≤ len ∧ Runs.Maximal (PrintableAt [0, 0x48, 0, 0x69, 0, 0]) 1 start len) ∧
      ∀ start len, (start, len) ∈ utf16 ↔
        2 ≤ len ∧ Runs.Maximal (WideAt [0, 0x48, 0, 0x69, 0, 0]) 2 start len :=
  ⟨by decide, scanStrings_exact _ 0 (by decide)⟩

end Passes

/-! ## The addresses of the ASCII strings -/

theorem isPrintable_skipped {data : Bytes} {i : ℕ} :
    ∀ b, 0 < i + ((data.drop i).takeWhile isPrintable).length + 1 →
      data[i + ((data.drop i).takeWhile isPrintable).length + 1 - 1]? = some b →
      isPrintable b = false := by
  intro b _ hb
  rw [Nat.add_sub_cancel] at hb
  by_contra hne
  have hprintable : PrintableAt data (i + ((data.drop i).takeWhile isPrintable).length) :=
    ⟨b, hb, by simpa using hne⟩
  exact (takeWhile_spec (data.drop i)).2.1 (printableAt_drop.mpr hprintable)

/-- What the ASCII pass finds from a position that no printable byte precedes. -/
theorem asciiPass_sound {data : Bytes} {baseAddr : U64} {minLen : ℕ} {f : FoundString} :
    ∀ {i : ℕ}, (∀ b, 0 < i → data[i - 1]? = some b → isPrintable b = false) →
      f ∈ asciiPass data baseAddr minLen i →
      ∃ start, PrintableRun data start f.text ∧ minLen ≤ f.text.length ∧
        f = ⟨baseAddr + BitVec.ofNat 64 start, f.text, false⟩ := by
  intro i
  fun_induction asciiPass data baseAddr minLen i with
  | case1 i hi text later hlen ih =>
      intro hfirst hf
      rcases List.mem_cons.mp hf with rfl | hf
      · exact ⟨i, ⟨rfl, hi, hfirst⟩, hlen, rfl⟩
      · exact ih isPrintable_skipped hf
  | case2 i hi text later hlen ih =>
      intro _ hf
      exact ih isPrintable_skipped hf
  | case3 i hi =>
      intro _ hf
      simp at hf

theorem utf16_of_mem_utf16Pass {data : Bytes} {baseAddr : U64} {minLen i : ℕ} {f : FoundString}
    (hf : f ∈ utf16Pass data baseAddr minLen i) : f.utf16 = true := by
  fun_induction utf16Pass data baseAddr minLen i with
  | case1 i hi text j later hlen ih =>
      rcases List.mem_cons.mp hf with rfl | hf
      · rfl
      · exact ih hf
  | case2 i hi text j later hlen ih => exact ih hf
  | case3 i hi => simp at hf

/-- **What the scanner reports as ASCII**: runs of printable bytes, at the base address plus their
offset in the data. -/
theorem scanStrings_sound {data : Bytes} {baseAddr : U64} {minLen : ℕ} {f : FoundString}
    (hf : f ∈ scanStrings data baseAddr minLen) (hutf : f.utf16 = false) :
    ∃ start, PrintableRun data start f.text ∧ minLen ≤ f.text.length ∧
      f.addr = baseAddr + BitVec.ofNat 64 start := by
  rcases List.mem_append.mp hf with hf | hf
  · obtain ⟨start, hrun, hlen, hfound⟩ := asciiPass_sound (fun b hi _ => absurd hi (lt_irrefl 0)) hf
    exact ⟨start, hrun, hlen, congrArg FoundString.addr hfound⟩
  · rw [utf16_of_mem_utf16Pass hf] at hutf
    contradiction

end Irida.Binfmt
