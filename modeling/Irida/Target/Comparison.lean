import Irida.Target.MemoryCache
import Mathlib.Data.List.Nodup
import Mathlib.Data.Nat.Find

/-!
# The page reads of a comparison

`changed_since_last_epoch` goes through the pages of a range until one of them cannot be read or
differs from the page of the previous epoch.  `Compares` are the runs of its loop, with the pages
that they read.

The pages are counted from the first one of the range (`ByteRange.page`), and `now` is what a page
contains when its turn comes.  The count goes on for ever: behind the last page of the address space
comes the first.  That is where the loop gets to if the range touches the last page, since the page
counter is then never larger than the last page (`compares_iff`).  So the loop keeps to its range
exactly if it has a reason to stop there (`keepsToRange_iff`).
-/

namespace Irida

/-- A range of bytes that does not wrap around. -/
structure ByteRange where
  addr : U64
  len : U64
  pos : len ≠ 0
  fits : addr.toNat + len.toNat ≤ 2 ^ 64

namespace ByteRange

variable (r : ByteRange)

/-- `last_page`. -/
def lastPage : U64 :=
  pageAddr (r.addr + r.len - 1)

/-- The number of pages that the range touches. -/
def count : ℕ :=
  (r.addr.toNat + r.len.toNat - 1) / 4096 - r.addr.toNat / 4096 + 1

/-- The page after as many steps from the first page of the range. -/
def page (k : ℕ) : U64 :=
  pageAddr r.addr + BitVec.ofNat 64 k * kPageSize

/-- A byte of the range lies on the page. -/
def Touches (page : U64) : Prop :=
  ∃ i < r.len.toNat, pageAddr (r.addr + BitVec.ofNat 64 i) = page

/-- The range ends on the last page of the address space. -/
def TouchesEnd : Prop :=
  r.addr.toNat + r.len.toNat > 2 ^ 64 - 4096

instance : Decidable r.TouchesEnd :=
  inferInstanceAs (Decidable (_ > _))

variable {r}

theorem len_pos : 0 < r.len.toNat :=
  BitVec.toNat_pos_of_ne_zero r.pos

theorem count_pos : 0 < r.count :=
  Nat.succ_pos _

@[simp] theorem page_zero : r.page 0 = pageAddr r.addr := by
  rw [page]
  simp

theorem page_succ (k : ℕ) : r.page (k + 1) = r.page k + kPageSize := by
  rw [page, page, BitVec.ofNat_add, add_mul, ← add_assoc]
  simp

theorem toNat_page (k : ℕ) :
    (r.page k).toNat = (r.addr.toNat / 4096 * 4096 + k * 4096) % 2 ^ 64 := by
  have hsize : kPageSize.toNat = 4096 := rfl
  rw [page, BitVec.toNat_add, BitVec.toNat_mul, BitVec.toNat_ofNat, toNat_pageAddr, hsize]
  omega

theorem toNat_lastPage :
    r.lastPage.toNat = (r.addr.toNat + r.len.toNat - 1) / 4096 * 4096 := by
  have hfits := r.fits
  have hpos := r.len_pos
  have hlast : (r.addr + r.len - 1).toNat = r.addr.toNat + r.len.toNat - 1 := by
    have hone : (1 : U64).toNat = 1 := rfl
    have haddr := r.addr.isLt
    have hlen := r.len.isLt
    rw [BitVec.toNat_sub, BitVec.toNat_add, hone]
    omega
  rw [lastPage, toNat_pageAddr, hlast]

theorem page_le_lastPage {k : ℕ} (hk : k < r.count) : r.page k ≤ r.lastPage := by
  have hfits := r.fits
  have hpos := r.len_pos
  rw [count] at hk
  rw [BitVec.le_def, toNat_page, toNat_lastPage]
  omega

theorem not_page_count_le (h : ¬ r.TouchesEnd) : ¬ r.page r.count ≤ r.lastPage := by
  have hpos := r.len_pos
  rw [TouchesEnd] at h
  rw [BitVec.le_def, toNat_page, toNat_lastPage, count]
  omega

theorem page_le_of_touchesEnd (h : r.TouchesEnd) (k : ℕ) : r.page k ≤ r.lastPage := by
  have hfits := r.fits
  rw [TouchesEnd] at h
  rw [BitVec.le_def, toNat_page, toNat_lastPage]
  omega

theorem touches_page {k : ℕ} (hk : k < r.count) : r.Touches (r.page k) := by
  have hfits := r.fits
  have hpos := r.len_pos
  rw [count] at hk
  refine ⟨r.addr.toNat / 4096 * 4096 + k * 4096 - r.addr.toNat, by omega, ?_⟩
  apply BitVec.eq_of_toNat_eq
  rw [toNat_page, toNat_pageAddr, BitVec.toNat_add, BitVec.toNat_ofNat]
  omega

theorem page_inj {j k : ℕ} (hj : j < r.count) (hk : k < r.count) (h : r.page j = r.page k) :
    j = k := by
  have hfits := r.fits
  have hpos := r.len_pos
  have hsame := congrArg BitVec.toNat h
  rw [count] at hj hk
  rw [toNat_page, toNat_page] at hsame
  omega

/-- Behind a range that touches the end of the address space comes the first page of all, which is
either the first page of the range as well or not touched by it. -/
theorem page_count_of_touchesEnd (h : r.TouchesEnd) :
    r.page r.count = r.page 0 ∨ ¬ r.Touches (r.page r.count) := by
  have hfits := r.fits
  rw [TouchesEnd] at h
  have hwrap : (r.page r.count).toNat = 0 := by
    rw [toNat_page, count]
    omega
  by_cases hfirst : r.addr.toNat / 4096 = 0
  · refine Or.inl (BitVec.eq_of_toNat_eq ?_)
    rw [hwrap, toNat_page]
    omega
  · refine Or.inr ?_
    rintro ⟨i, hi, hpage⟩
    have hzero := congrArg BitVec.toNat hpage
    rw [hwrap, toNat_pageAddr, BitVec.toNat_add, BitVec.toNat_ofNat] at hzero
    omega

end ByteRange

namespace MemoryCache

section

variable {β : Type*} (ops : Backend β)

/-- The runs of the loop of `changed_since_last_epoch` that come to an end, with the pages that they
read. -/
inductive Compares (lastPage : U64) :
    U64 → MemoryCache → β → List U64 → Bool → MemoryCache → β → Prop
  | past {page : U64} {c : MemoryCache} {b : β} : ¬ page ≤ lastPage →
      Compares lastPage page c b [] false c b
  | unreadable {page : U64} {c c' : MemoryCache} {b b' : β} {e : String} : page ≤ lastPage →
      readPage ops page c b = (.error e, c', b') → Compares lastPage page c b [page] false c' b'
  | differs {page : U64} {c c' : MemoryCache} {b b' : β} {bytes old : Bytes} : page ≤ lastPage →
      readPage ops page c b = (.ok bytes, c', b') → c'.prev[page]? = some old → bytes ≠ old →
      Compares lastPage page c b [page] true c' b'
  | same {page : U64} {c c' c'' : MemoryCache} {b b' b'' : β} {bytes : Bytes} {pages : List U64}
      {changed : Bool} : page ≤ lastPage → readPage ops page c b = (.ok bytes, c', b') →
      (∀ old, c'.prev[page]? = some old → bytes = old) →
      Compares lastPage (page + kPageSize) c' b' pages changed c'' b'' →
      Compares lastPage page c b (page :: pages) changed c'' b''

variable {ops}

section Step

variable {lastPage page : U64} {c c' : MemoryCache} {b b' : β} {bytes old : Bytes}

theorem changedLoop_past (fuel : ℕ) (h : ¬ page ≤ lastPage) :
    changedLoop ops lastPage (fuel + 1) page c b = some (false, c, b) := by
  rw [changedLoop, if_neg h]

theorem changedLoop_unreadable (fuel : ℕ) (h : page ≤ lastPage) {e : String}
    (hread : readPage ops page c b = (.error e, c', b')) :
    changedLoop ops lastPage (fuel + 1) page c b = some (false, c', b') := by
  rw [changedLoop, if_pos h, hread]

theorem changedLoop_differs (fuel : ℕ) (h : page ≤ lastPage)
    (hread : readPage ops page c b = (.ok bytes, c', b')) (hprev : c'.prev[page]? = some old)
    (hne : bytes ≠ old) : changedLoop ops lastPage (fuel + 1) page c b = some (true, c', b') := by
  rw [changedLoop, if_pos h, hread]
  simp only [hprev, if_pos hne]

theorem changedLoop_same (fuel : ℕ) (h : page ≤ lastPage)
    (hread : readPage ops page c b = (.ok bytes, c', b'))
    (hsame : ∀ old, c'.prev[page]? = some old → bytes = old) :
    changedLoop ops lastPage (fuel + 1) page c b =
      changedLoop ops lastPage fuel (page + kPageSize) c' b' := by
  rw [changedLoop, if_pos h, hread]
  cases hprev : c'.prev[page]? with
  | none => simp only [hprev]
  | some old => simp [hprev, hsame old hprev]

end Step

/-- The loop returns what its runs end with. -/
theorem compares_iff_loop {lastPage page : U64} {c c' : MemoryCache} {b b' : β} {changed : Bool} :
    (∃ fuel, changedLoop ops lastPage fuel page c b = some (changed, c', b')) ↔
      ∃ pages, Compares ops lastPage page c b pages changed c' b' := by
  constructor
  · rintro ⟨fuel, hrun⟩
    -- the loop and the relation take the same turn at each page
    induction fuel generalizing page c b with
    | zero => cases hrun
    | succ fuel ih =>
        by_cases hle : page ≤ lastPage
        · rcases hread : readPage ops page c b with ⟨e | bytes, c₁, b₁⟩
          · rw [changedLoop_unreadable fuel hle hread] at hrun
            cases hrun
            exact ⟨_, .unreadable hle hread⟩
          · by_cases hsame : ∀ old, c₁.prev[page]? = some old → bytes = old
            · rw [changedLoop_same fuel hle hread hsame] at hrun
              obtain ⟨pages, hrest⟩ := ih hrun
              exact ⟨_, .same hle hread hsame hrest⟩
            · push Not at hsame
              obtain ⟨old, hprev, hne⟩ := hsame
              rw [changedLoop_differs fuel hle hread hprev hne] at hrun
              cases hrun
              exact ⟨_, .differs hle hread hprev hne⟩
        · rw [changedLoop_past fuel hle] at hrun
          cases hrun
          exact ⟨_, .past hle⟩
  · rintro ⟨pages, hrun⟩
    -- a run of the relation has as many turns as it needs fuel
    induction hrun with
    | past hle => exact ⟨1, changedLoop_past 0 hle⟩
    | unreadable hle hread => exact ⟨1, changedLoop_unreadable 0 hle hread⟩
    | differs hle hread hprev hne => exact ⟨1, changedLoop_differs 0 hle hread hprev hne⟩
    | same hle hread hsame _ ih =>
        obtain ⟨fuel, hrun⟩ := ih
        exact ⟨fuel + 1, by rw [changedLoop_same fuel hle hread hsame, hrun]⟩

/-! ## The pages in turn -/

section Turn

variable (ops) (r : ByteRange) (c : MemoryCache) (b : β)

/-- The cache and the backend after that many page reads. -/
def afterPages : ℕ → MemoryCache × β
  | 0 => (c, b)
  | k + 1 => (readPage ops (r.page k) (afterPages k).1 (afterPages k).2).2

/-- What a page contains when its turn comes. -/
def now (k : ℕ) : Result Bytes :=
  (readPage ops (r.page k) (afterPages ops r c b k).1 (afterPages ops r c b k).2).1

/-- The page cannot be read. -/
def Unreadable (k : ℕ) : Prop :=
  ∃ e, now ops r c b k = .error e

/-- The page is not the same as in the previous epoch. -/
def Differs (k : ℕ) : Prop :=
  ∃ bytes old, now ops r c b k = .ok bytes ∧ c.prev[r.page k]? = some old ∧ bytes ≠ old

/-- The page gives no reason to stop: it can be read, and is the same as in the previous epoch if it
was cached then. -/
def Quiet (k : ℕ) : Prop :=
  ∃ bytes, now ops r c b k = .ok bytes ∧ ∀ old, c.prev[r.page k]? = some old → bytes = old

/-- The loop gets to the page: it is a page of the range, or the loop never gets past the last one,
and nothing has stopped the loop before. -/
def Reaches (k : ℕ) : Prop :=
  (r.TouchesEnd ∨ k < r.count) ∧ ∀ j < k, Quiet ops r c b j

variable {ops r c b}

theorem not_quiet_iff {k : ℕ} :
    ¬ Quiet ops r c b k ↔ Unreadable ops r c b k ∨ Differs ops r c b k := by
  unfold Quiet Unreadable Differs
  cases hnow : now ops r c b k with
  | error e => simp
  | ok bytes => simp

theorem Unreadable.not_differs {k : ℕ} (h : Unreadable ops r c b k) : ¬ Differs ops r c b k := by
  rintro ⟨bytes, -, hok, -⟩
  obtain ⟨e, herr⟩ := h
  rw [herr] at hok
  cases hok

/-- Reading pages leaves the pages of the previous epoch alone. -/
theorem prev_afterPages (k : ℕ) : (afterPages ops r c b k).1.prev = c.prev := by
  induction k with
  | zero => rfl
  | succ k ih =>
      rw [← ih]
      show (readPage ops (r.page k) _ _).2.1.prev = _
      rcases @readPage_cases β ops (r.page k) (afterPages ops r c b k).1
        (afterPages ops r c b k).2 with ⟨_, -, hread⟩ | ⟨-, _, _, -, hread⟩ |
        ⟨-, _, _, -, hread⟩ <;> rw [hread]

theorem readPage_afterPages (k : ℕ) :
    readPage ops (r.page k) (afterPages ops r c b k).1 (afterPages ops r c b k).2 =
      (now ops r c b k, (afterPages ops r c b (k + 1)).1, (afterPages ops r c b (k + 1)).2) :=
  rfl

theorem page_le_iff {k : ℕ} (hk : r.TouchesEnd ∨ k ≤ r.count) :
    r.page k ≤ r.lastPage ↔ r.TouchesEnd ∨ k < r.count := by
  constructor
  · intro hle
    by_contra hnot
    obtain ⟨hend, hge⟩ := not_or.mp hnot
    have hcount : k = r.count := by
      rcases hk with hk | hk
      · exact absurd hk hend
      · omega
    exact ByteRange.not_page_count_le hend (hcount ▸ hle)
  · rintro (hend | hlt)
    · exact ByteRange.page_le_of_touchesEnd hend k
    · exact ByteRange.page_le_lastPage hlt

theorem changedLoop_quiet {n : ℕ} (hquiet : ∀ j < n, Quiet ops r c b j)
    (hn : r.TouchesEnd ∨ n ≤ r.count) (fuel : ℕ) :
    changedLoop ops r.lastPage (fuel + n) (r.page 0) c b =
      changedLoop ops r.lastPage fuel (r.page n) (afterPages ops r c b n).1
        (afterPages ops r c b n).2 := by
  induction n generalizing fuel with
  | zero => rfl
  | succ n ih =>
      obtain ⟨bytes, hnow, hsame⟩ := hquiet n (Nat.lt_succ_self n)
      have hwithin : r.TouchesEnd ∨ n < r.count := hn.imp_right fun h => h
      have hread := @readPage_afterPages β ops r c b n
      rw [hnow] at hread
      rw [show fuel + (n + 1) = fuel + 1 + n by omega,
        ih (fun j hj => hquiet j (by omega)) (hwithin.imp_right le_of_lt) (fuel + 1),
        changedLoop_same fuel ((page_le_iff (hwithin.imp_right le_of_lt)).mpr hwithin) hread,
        ByteRange.page_succ]
      rw [prev_afterPages]
      exact hsame

/-- What stops the loop at a page. -/
def StopsAt (ops : Backend β) (r : ByteRange) (c : MemoryCache) (b : β) (m : ℕ) (changed : Bool) :
    Prop :=
  (r.TouchesEnd ∨ m < r.count) ∧
    (Unreadable ops r c b m ∧ changed = false ∨ Differs ops r c b m ∧ changed = true)

theorem readPage_index {page : U64} {c₁ c₂ : MemoryCache} {b₁ b₂ : β} {bytes : Bytes} {k : ℕ}
    (hpage : page = r.page k) (hafter : (c₁, b₁) = afterPages ops r c b k)
    (hread : readPage ops page c₁ b₁ = (.ok bytes, c₂, b₂)) :
    now ops r c b k = .ok bytes ∧ (c₂, b₂) = afterPages ops r c b (k + 1) ∧ c₂.prev = c.prev := by
  have hnext := @readPage_afterPages β ops r c b k
  rw [← hafter, ← hpage, hread] at hnext
  obtain ⟨hnow, hstate⟩ := Prod.mk.inj hnext
  have hprev := @prev_afterPages β ops r c b (k + 1)
  rw [← (Prod.mk.inj hstate).1] at hprev
  exact ⟨hnow.symm, hstate, hprev⟩

/-- **A run of the loop** goes through pages that do not stop it, up to the end of the range or to
one that does. -/
theorem Compares.index {page : U64} {c₁ c₂ : MemoryCache} {b₁ b₂ : β} {pages : List U64}
    {changed : Bool} (h : Compares ops r.lastPage page c₁ b₁ pages changed c₂ b₂) {k : ℕ}
    (hpage : page = r.page k) (hafter : (c₁, b₁) = afterPages ops r c b k)
    (hk : r.TouchesEnd ∨ k ≤ r.count) :
    ∃ m ≥ k, (∀ j ≥ k, j < m → Quiet ops r c b j) ∧
      (¬ r.TouchesEnd ∧ m = r.count ∧ changed = false ∧
          pages = (List.range' k (m - k)).map r.page ∨
        StopsAt ops r c b m changed ∧ pages = (List.range' k (m + 1 - k)).map r.page) := by
  -- along the run, with the page it has come to as the `k`-th of the range
  induction h generalizing k with
  | past hle =>
      rw [hpage, page_le_iff hk, not_or] at hle
      have hcount : k = r.count := by
        have hle := hk.resolve_left hle.1
        omega
      refine ⟨k, le_refl k, fun j hj hlt => by omega, Or.inl ⟨hle.1, hcount, rfl, ?_⟩⟩
      simp
  | @unreadable page c₁ c₂ b₁ b₂ e hle hread =>
      rw [hpage, page_le_iff hk] at hle
      refine ⟨k, le_refl k, fun j hj hlt => by omega, Or.inr ⟨⟨hle, Or.inl ⟨⟨e, ?_⟩, rfl⟩⟩, ?_⟩⟩
      · rw [now, ← hafter, ← hpage, hread]
      · simp [hpage]
  | @differs page c₁ c₂ b₁ b₂ bytes old hle hread hprev hne =>
      rw [hpage, page_le_iff hk] at hle
      obtain ⟨hnow, -, hsame⟩ := readPage_index hpage hafter hread
      refine ⟨k, le_refl k, fun j hj hlt => by omega, Or.inr ⟨⟨hle, Or.inr ⟨?_, rfl⟩⟩, ?_⟩⟩
      · rw [hsame, hpage] at hprev
        exact ⟨bytes, old, hnow, hprev, hne⟩
      · simp [hpage]
  | @same page c₁ c₂ c₃ b₁ b₂ b₃ bytes pages changed hle hread hsame _ ih =>
      rw [hpage, page_le_iff hk] at hle
      obtain ⟨hnow, hstate, hprev⟩ := readPage_index hpage hafter hread
      rw [hprev, hpage] at hsame
      obtain ⟨m, hm, hquiet, hend⟩ :=
        ih (by rw [hpage, ByteRange.page_succ]) hstate (hle.imp_right Nat.succ_le_of_lt)
      refine ⟨m, by omega, fun j hj hlt => ?_, ?_⟩
      · rcases Nat.eq_or_lt_of_le hj with rfl | hlater
        · exact ⟨bytes, hnow, hsame⟩
        · exact hquiet j hlater hlt
      · have hlist : ∀ n, r.page k :: (List.range' (k + 1) n).map r.page =
            (List.range' k (n + 1)).map r.page := fun n => by rw [List.range'_succ, List.map_cons]
        refine hend.imp ?_ ?_
        · rintro ⟨hnot, hcount, hchanged, rfl⟩
          refine ⟨hnot, hcount, hchanged, ?_⟩
          rw [hpage, hlist, show m - (k + 1) + 1 = m - k by omega]
        · rintro ⟨hstops, rfl⟩
          refine ⟨hstops, ?_⟩
          rw [hpage, hlist, show m + 1 - (k + 1) + 1 = m + 1 - k by omega]

/-! ## The whole comparison -/

theorem changedSinceLastEpoch_eq (fuel : ℕ) :
    changedSinceLastEpoch ops fuel r.addr r.len c b =
      changedLoop ops r.lastPage fuel (r.page 0) c b := by
  rw [changedSinceLastEpoch, if_neg r.pos, ByteRange.page_zero]
  rfl

/-- Before the first page that stops the loop all are quiet. -/
theorem exists_first {k : ℕ} (hk : ¬ Quiet ops r c b k) :
    ∃ m ≤ k, ¬ Quiet ops r c b m ∧ ∀ j < m, Quiet ops r c b j := by
  classical
  have hsome : ∃ m, ¬ Quiet ops r c b m := ⟨k, hk⟩
  exact ⟨Nat.find hsome, Nat.find_min' hsome hk, Nat.find_spec hsome,
    fun j hj => not_not.mp (Nat.find_min hsome hj)⟩

/-- The loop ends at a page that it reaches and that stops it. -/
theorem returns_of_stopsAt {m : ℕ} {changed : Bool} (hquiet : ∀ j < m, Quiet ops r c b j)
    (hstops : StopsAt ops r c b m changed) :
    ∃ fuel c' b', changedSinceLastEpoch ops fuel r.addr r.len c b = some (changed, c', b') := by
  obtain ⟨hwithin, hwhy⟩ := hstops
  have hle := (page_le_iff (hwithin.imp_right le_of_lt)).mpr hwithin
  have hread := @readPage_afterPages β ops r c b m
  refine ⟨1 + m, (afterPages ops r c b (m + 1)).1, (afterPages ops r c b (m + 1)).2, ?_⟩
  rw [changedSinceLastEpoch_eq, changedLoop_quiet hquiet (hwithin.imp_right le_of_lt) 1]
  rcases hwhy with ⟨⟨e, hnow⟩, rfl⟩ | ⟨⟨bytes, old, hnow, hprev, hne⟩, rfl⟩ <;> rw [hnow] at hread
  · exact changedLoop_unreadable 0 hle hread
  · rw [← @prev_afterPages β ops r c b (m + 1)] at hprev
    exact changedLoop_differs 0 hle hread hprev hne

/-- The loop ends behind a range in which nothing stops it. -/
theorem returns_of_quiet (hend : ¬ r.TouchesEnd) (hquiet : ∀ j < r.count, Quiet ops r c b j) :
    ∃ fuel c' b', changedSinceLastEpoch ops fuel r.addr r.len c b = some (false, c', b') := by
  refine ⟨1 + r.count, (afterPages ops r c b r.count).1, (afterPages ops r c b r.count).2, ?_⟩
  rw [changedSinceLastEpoch_eq, changedLoop_quiet hquiet (Or.inr le_rfl) 1]
  exact changedLoop_past 0 (ByteRange.not_page_count_le hend)

/-- Where a comparison that returns has stopped, and the pages that it has read. -/
theorem returns_index {fuel : ℕ} {changed : Bool} {c' : MemoryCache} {b' : β}
    (h : changedSinceLastEpoch ops fuel r.addr r.len c b = some (changed, c', b')) :
    ∃ m, (∀ j < m, Quiet ops r c b j) ∧
      (¬ r.TouchesEnd ∧ m = r.count ∧ changed = false ∨ StopsAt ops r c b m changed) := by
  rw [changedSinceLastEpoch_eq] at h
  obtain ⟨pages, hrun⟩ := compares_iff_loop.mp ⟨fuel, h⟩
  obtain ⟨m, -, hquiet, hend⟩ := hrun.index (k := 0) rfl rfl (Or.inr (Nat.zero_le _))
  refine ⟨m, fun j hj => hquiet j (Nat.zero_le j) hj, hend.imp ?_ And.left⟩
  exact fun ⟨hnot, hcount, hchanged, _⟩ => ⟨hnot, hcount, hchanged⟩

/-- A change is reported exactly if the loop reaches a page that differs. -/
theorem returns_true_iff :
    (∃ fuel c' b', changedSinceLastEpoch ops fuel r.addr r.len c b = some (true, c', b')) ↔
      ∃ k, Reaches ops r c b k ∧ Differs ops r c b k := by
  constructor
  · rintro ⟨fuel, c', b', h⟩
    obtain ⟨m, hquiet, ⟨-, -, hfalse⟩ | ⟨hwithin, ⟨-, hfalse⟩ | ⟨hdiffers, -⟩⟩⟩ := returns_index h
    · cases hfalse
    · cases hfalse
    · exact ⟨m, ⟨hwithin, hquiet⟩, hdiffers⟩
  · rintro ⟨k, ⟨hwithin, hquiet⟩, hdiffers⟩
    exact returns_of_stopsAt hquiet ⟨hwithin, Or.inr ⟨hdiffers, rfl⟩⟩

/-- The comparison ends, and has read only pages of the range, each of them once. -/
def KeepsToRange (ops : Backend β) (r : ByteRange) (c : MemoryCache) (b : β) : Prop :=
  ∃ fuel changed c' b' pages,
    changedSinceLastEpoch ops fuel r.addr r.len c b = some (changed, c', b') ∧
    Compares ops r.lastPage (pageAddr r.addr) c b pages changed c' b' ∧
    pages.Nodup ∧ ∀ page ∈ pages, r.Touches page

/-- Distinct pages of the range are read if the loop ends before it leaves the range. -/
theorem pages_of_le {n : ℕ} (hn : n ≤ r.count) :
    ((List.range' 0 n).map r.page).Nodup ∧
      ∀ page ∈ (List.range' 0 n).map r.page, r.Touches page := by
  constructor
  · refine List.Nodup.map_on (fun j hj k hk hsame => ?_) List.nodup_range'
    rw [List.mem_range'_1] at hj hk
    exact ByteRange.page_inj (by omega) (by omega) hsame
  · intro page hpage
    obtain ⟨k, hk, rfl⟩ := List.mem_map.mp hpage
    rw [List.mem_range'_1] at hk
    exact ByteRange.touches_page (by omega)

/-- A comparison with a reason to stop in its range returns. -/
theorem returns_of_stops
    (h : ¬ r.TouchesEnd ∨ ∃ k < r.count, Unreadable ops r c b k ∨ Differs ops r c b k) :
    ∃ fuel changed c' b',
      changedSinceLastEpoch ops fuel r.addr r.len c b = some (changed, c', b') := by
  by_cases hquiet : ∀ j < r.count, Quiet ops r c b j
  · have hend : ¬ r.TouchesEnd := by
      rcases h with hend | ⟨k, hk, hstop⟩
      · exact hend
      · exact absurd (hquiet k hk) (not_quiet_iff.mpr hstop)
    obtain ⟨fuel, c', b', hrun⟩ := returns_of_quiet hend hquiet
    exact ⟨fuel, false, c', b', hrun⟩
  · push Not at hquiet
    obtain ⟨k, hk, hstop⟩ := hquiet
    obtain ⟨m, hm, hfirst, hbefore⟩ := exists_first hstop
    rcases not_quiet_iff.mp hfirst with hread | hdiffers
    · obtain ⟨fuel, c', b', hrun⟩ := returns_of_stopsAt hbefore
        ⟨Or.inr (Nat.lt_of_le_of_lt hm hk), Or.inl ⟨hread, rfl⟩⟩
      exact ⟨fuel, false, c', b', hrun⟩
    · obtain ⟨fuel, c', b', hrun⟩ := returns_of_stopsAt hbefore
        ⟨Or.inr (Nat.lt_of_le_of_lt hm hk), Or.inr ⟨hdiffers, rfl⟩⟩
      exact ⟨fuel, true, c', b', hrun⟩

/-- A comparison with a reason to stop in its range keeps to it. -/
theorem keepsToRange_of_stops
    (h : ¬ r.TouchesEnd ∨ ∃ k < r.count, Unreadable ops r c b k ∨ Differs ops r c b k) :
    KeepsToRange ops r c b := by
  obtain ⟨fuel, changed, c', b', hrun⟩ := returns_of_stops h
  have hloop := hrun
  rw [changedSinceLastEpoch_eq] at hloop
  obtain ⟨pages, hcompares⟩ := compares_iff_loop.mp ⟨fuel, hloop⟩
  obtain ⟨m, -, hquiet, hends⟩ := hcompares.index (k := 0) rfl rfl (Or.inr (Nat.zero_le _))
  have hpages : ∃ n ≤ r.count, pages = (List.range' 0 n).map r.page := by
    rcases hends with ⟨-, hcount, -, hpages⟩ | ⟨⟨hwithin, -⟩, hpages⟩
    · exact ⟨m - 0, by omega, hpages⟩
    · refine ⟨m + 1 - 0, ?_, hpages⟩
      rcases h with hend | ⟨k, hk, hstop⟩
      · have hlt := hwithin.resolve_left hend
        omega
      · have hle : ¬ k < m :=
          fun hlt => not_quiet_iff.mpr hstop (hquiet k (Nat.zero_le k) hlt)
        omega
  obtain ⟨n, hn, rfl⟩ := hpages
  rw [ByteRange.page_zero] at hcompares
  exact ⟨fuel, changed, c', b', _, hrun, hcompares, pages_of_le hn⟩

/-- A comparison without a reason to stop leaves its range behind the last page of the address
space, and comes back to it if the range is not left before. -/
theorem stops_of_keepsToRange (h : KeepsToRange ops r c b) :
    ¬ r.TouchesEnd ∨ ∃ k < r.count, Unreadable ops r c b k ∨ Differs ops r c b k := by
  obtain ⟨fuel, changed, c', b', pages, -, hcompares, hnodup, htouches⟩ := h
  obtain ⟨m, -, -, ⟨hend, -⟩ | ⟨⟨hwithin, hwhy⟩, hpages⟩⟩ :=
    hcompares.index (k := 0) ByteRange.page_zero.symm rfl (Or.inr (Nat.zero_le _))
  · exact Or.inl hend
  · by_cases hlt : m < r.count
    · exact Or.inr ⟨m, hlt, hwhy.imp And.left And.left⟩
    · -- the loop has gone beyond the last page
      have hend := hwithin.resolve_right hlt
      have hmem : ∀ k ≤ m, k ∈ List.range' 0 (m + 1 - 0) := by
        intro k hk
        rw [List.mem_range'_1]
        omega
      subst hpages
      have hlast := htouches _ (List.mem_map_of_mem (hmem r.count (Nat.le_of_not_lt hlt)))
      rcases ByteRange.page_count_of_touchesEnd hend with hfirst | hnot
      · have hsame := List.inj_on_of_nodup_map hnodup (hmem r.count (Nat.le_of_not_lt hlt))
          (hmem 0 (Nat.zero_le m)) hfirst
        exact absurd hsame ByteRange.count_pos.ne'
      · exact absurd hlast hnot

/-- **When a comparison keeps to its range**: exactly if the range does not touch the last page of
the address space, or one of its pages cannot be read or differs. -/
theorem keepsToRange_iff (ops : Backend β) (r : ByteRange) (c : MemoryCache) (b : β) :
    KeepsToRange ops r c b ↔
      ¬ r.TouchesEnd ∨ ∃ k < r.count, Unreadable ops r c b k ∨ Differs ops r c b k :=
  ⟨stops_of_keepsToRange, keepsToRange_of_stops⟩

end Turn

end

/-! ## The last byte of the address space -/

/-- A backend whose memory is all zeros. -/
def zeroOps : Backend Unit where
  cont _ := (.error "cont", ())
  step _ := (.error "step", ())
  readRegisters _ := (.ok [], ())
  readMemory _ len _ := (.ok (List.replicate len.toNat 0), ())

/-- The last byte of the address space. -/
def lastByte : ByteRange :=
  ⟨0xFFFFFFFFFFFFFFFF, 1, by decide, by decide⟩

/-- The last byte cannot be compared in a memory that can be read everywhere and does not change:
the loop goes on behind it. -/
theorem not_keepsToRange :
    ¬ ∀ (ops : Backend Unit) (r : ByteRange) (c : MemoryCache) (b : Unit),
      KeepsToRange ops r c b := by
  intro hall
  rcases stops_of_keepsToRange (hall zeroOps lastByte {} ()) with hend | ⟨k, -, hread | hdiffers⟩
  · exact hend (by decide)
  · obtain ⟨e, hnow⟩ := hread
    rcases @readPage_cases Unit zeroOps (lastByte.page k) (afterPages zeroOps lastByte {} () k).1
      (afterPages zeroOps lastByte {} () k).2 with ⟨_, -, hpage⟩ | ⟨-, _, _, hserved, -⟩ |
      ⟨-, _, _, -, hpage⟩
    · rw [now, hpage] at hnow
      cases hnow
    · cases hserved
    · rw [now, hpage] at hnow
      cases hnow
  · obtain ⟨bytes, old, -, hprev, -⟩ := hdiffers
    simp at hprev

end MemoryCache

end Irida
