import Irida.Target.Comparison
import Irida.Target.Snapshot

/-!
# What a comparison reports

`changed_since_last_epoch` is asked about a range of bytes, and compares whole pages until one of
them cannot be read.  So it errs in both ways: a page may differ outside the range only
(`reports_sound_iff`), and a page that cannot be read hides those behind it
(`reports_complete_iff`).

Both results are about any cache and any backend.  What a page contains now is what is read when the
pages of the range are read in turn.
-/

namespace Irida.MemoryCache

open Target (Observed Event)

section

variable {β : Type*}

/-- A change is reported. -/
def Reports (ops : Backend β) (r : ByteRange) (c : MemoryCache) (b : β) : Prop :=
  ∃ fuel c' b', changedSinceLastEpoch ops fuel r.addr r.len c b = some (true, c', b')

/-- A byte of the range that lies on the page differs between the page of the previous epoch and the
page of now. -/
def DiffersWithin (ops : Backend β) (r : ByteRange) (c : MemoryCache) (b : β) (k : ℕ) : Prop :=
  k < r.count ∧ ∃ bytes old, now ops r c b k = .ok bytes ∧ c.prev[r.page k]? = some old ∧
    ∃ i < r.len.toNat, pageAddr (r.addr + BitVec.ofNat 64 i) = r.page k ∧
      bytes.getD (pageOff (r.addr + BitVec.ofNat 64 i)).toNat 0 ≠
        old.getD (pageOff (r.addr + BitVec.ofNat 64 i)).toNat 0

/-- The page differs, but not in a byte of the range. -/
def Stray (ops : Backend β) (r : ByteRange) (c : MemoryCache) (b : β) (k : ℕ) : Prop :=
  Differs ops r c b k ∧ ¬ DiffersWithin ops r c b k

variable {ops : Backend β} {r : ByteRange} {c : MemoryCache} {b : β}

theorem DiffersWithin.differs {k : ℕ} (h : DiffersWithin ops r c b k) : Differs ops r c b k := by
  obtain ⟨-, bytes, old, hnow, hprev, i, -, -, hne⟩ := h
  exact ⟨bytes, old, hnow, hprev, fun hsame => hne (by rw [hsame])⟩

/-- A page of the range that differs but cannot be the first to do so is behind one that stops the
loop without a report. -/
theorem reports_or_hidden {k : ℕ} (hk : k < r.count) (hdiffers : Differs ops r c b k) :
    Reports ops r c b ∨
      ∃ u < r.count, Unreadable ops r c b u ∧ ∀ j < u, ¬ Differs ops r c b j := by
  obtain ⟨m, hm, hfirst, hbefore⟩ := exists_first (not_quiet_iff.mpr (Or.inr hdiffers))
  have hwithin := Nat.lt_of_le_of_lt hm hk
  rcases not_quiet_iff.mp hfirst with hread | hdiffers
  · exact Or.inr ⟨m, hwithin, hread, fun j hj hdiff =>
      not_quiet_iff.mpr (Or.inr hdiff) (hbefore j hj)⟩
  · exact Or.inl (returns_true_iff.mpr ⟨m, ⟨Or.inr hwithin, hbefore⟩, hdiffers⟩)

/-- Behind a page that cannot be read nothing is reported. -/
theorem not_reports_of_unreadable {u : ℕ} (hread : Unreadable ops r c b u)
    (hbefore : ∀ j < u, ¬ Differs ops r c b j) : ¬ Reports ops r c b := by
  intro hreports
  obtain ⟨k, ⟨-, hquiet⟩, hdiffers⟩ := returns_true_iff.mp hreports
  rcases Nat.lt_trichotomy k u with hlt | rfl | hgt
  · exact hbefore k hlt hdiffers
  · exact hread.not_differs hdiffers
  · exact not_quiet_iff.mpr (Or.inl hread) (hquiet u hgt)

/-- **When a report is true**: a change that is reported is one of a byte of the range exactly if
every page that the loop reaches and that differs outside the range only comes together with a byte
of the range that differs. -/
theorem reports_sound_iff (ops : Backend β) (r : ByteRange) (c : MemoryCache) (b : β) :
    (Reports ops r c b → ∃ k, DiffersWithin ops r c b k) ↔
      ∀ k, Reaches ops r c b k → Stray ops r c b k → ∃ k', DiffersWithin ops r c b k' := by
  constructor
  · intro hsound k hreach hstray
    exact hsound (returns_true_iff.mpr ⟨k, hreach, hstray.1⟩)
  · intro hstray hreports
    obtain ⟨k, hreach, hdiffers⟩ := returns_true_iff.mp hreports
    by_cases hwithin : DiffersWithin ops r c b k
    · exact ⟨k, hwithin⟩
    · exact hstray k hreach ⟨hdiffers, hwithin⟩

/-- **When every change is reported**: exactly if no byte of the range differs, or before each page
of the range that cannot be read there is one that differs. -/
theorem reports_complete_iff (ops : Backend β) (r : ByteRange) (c : MemoryCache) (b : β) :
    ((∃ k, DiffersWithin ops r c b k) → Reports ops r c b) ↔
      (∀ k, ¬ DiffersWithin ops r c b k) ∨
        ∀ u < r.count, Unreadable ops r c b u → ∃ j < u, Differs ops r c b j := by
  constructor
  · intro hcomplete
    by_cases hsome : ∃ k, DiffersWithin ops r c b k
    · refine Or.inr fun u _ hread => ?_
      by_contra hnone
      push Not at hnone
      exact not_reports_of_unreadable hread hnone (hcomplete hsome)
    · exact Or.inl fun k hk => hsome ⟨k, hk⟩
  · rintro (hnone | hread) ⟨k, hk⟩
    · exact absurd hk (hnone k)
    · rcases reports_or_hidden hk.1 hk.differs with hreports | ⟨u, hu, hunreadable, hbefore⟩
      · exact hreports
      · obtain ⟨j, hj, hdiffers⟩ := hread u hu hunreadable
        exact absurd hdiffers (hbefore j hj)

end

/-! ## A page that differs outside the range -/

/-- A backend whose pages hold zero in the first byte and the number of its state in all others. -/
def flagOps : Backend Byte where
  cont n := (.error "cont", n)
  step n := (.error "step", n)
  readRegisters n := (.ok [], n)
  readMemory _ len n := (.ok (0 :: List.replicate (len.toNat - 1) n), n)

/-- The page in a given state. -/
def flagPage (n : Byte) : Bytes :=
  0 :: List.replicate (kPageSize.toNat - 1) n

/-- The cache after the page was read in the state `0`, and an epoch has begun. -/
def flagCache : MemoryCache :=
  MemoryCache.setEpoch { cur := (∅ : Std.ExtTreeMap U64 Bytes).insert 0 (flagPage 0) } 1

private theorem firstByte_pos : (1 : U64) ≠ 0 := by
  decide

private theorem firstByte_fits : (0 : U64).toNat + (1 : U64).toNat ≤ 2 ^ 64 := by
  decide

/-- The first byte of memory. -/
def firstByte : ByteRange :=
  ⟨0, 1, firstByte_pos, firstByte_fits⟩

/-- The first byte is read, and the others change in the next epoch. -/
private theorem session_flag : Session flagOps flagCache { state := 1 } [] := by
  have hread : (({} : MemoryCache).read (fetching flagOps) 0 1 { state := 0 }).2.1 =
      { cur := (∅ : Std.ExtTreeMap U64 Bytes).insert 0 (flagPage 0) } ∧
      (({} : MemoryCache).read (fetching flagOps) 0 1 { state := 0 }).2.2.state = 0 := by
    have hpage : MemoryCache.readPage (fetching flagOps) (pageAddr 0) {} { state := 0 } =
        (.ok (flagPage 0), { cur := (∅ : Std.ExtTreeMap U64 Bytes).insert 0 (flagPage 0) },
          { state := 0, log := [.fetched 0 kPageSize (flagPage 0)] }) := rfl
    rw [MemoryCache.read, readLoop_within hpage (by decide) (by decide)]
    exact ⟨rfl, rfl⟩
  have hstart : Session flagOps {} { state := 0 } [] := .start 0
  have hrun := ((hstart.read 0 1).setEpoch 1).guest 1
  rw [hread.1] at hrun
  exact hrun

/-- In general a report can be false: the byte that was asked about has not changed. -/
theorem not_reports_sound :
    ¬ ∀ (ops : Backend Byte) (r : ByteRange) (c : MemoryCache) (o : Observed Byte)
      (replies : List Reply), Session ops c o replies → Reports (fetching ops) r c o →
      ∃ k, DiffersWithin (fetching ops) r c o k := by
  intro hsound
  have hnow : now (fetching flagOps) firstByte flagCache { state := 1 } 0 = .ok (flagPage 1) := rfl
  have hprev : flagCache.prev[firstByte.page 0]? = some (flagPage 0) :=
    Std.ExtTreeMap.getElem?_insert_self
  have hdiffers : Differs (fetching flagOps) firstByte flagCache { state := 1 } 0 := by
    refine ⟨flagPage 1, flagPage 0, hnow, hprev, fun hsame => ?_⟩
    have hbyte : (some 1 : Option Byte) = some 0 := congrArg (fun page : Bytes => page[1]?) hsame
    simp at hbyte
  have hreports : Reports (fetching flagOps) firstByte flagCache { state := 1 } :=
    returns_true_iff.mpr
      ⟨0, ⟨Or.inr (by decide), fun j hj => absurd hj (Nat.not_lt_zero j)⟩, hdiffers⟩
  obtain ⟨k, hk, bytes, old, hbytes, hold, i, hi, -, hne⟩ :=
    hsound flagOps firstByte flagCache _ _ session_flag hreports
  -- there is one page, and one byte of it
  obtain rfl : k = 0 := Nat.lt_one_iff.mp hk
  obtain rfl : i = 0 := Nat.lt_one_iff.mp hi
  obtain rfl := Except.ok.inj (hnow.symm.trans hbytes)
  obtain rfl := Option.some.inj (hprev.symm.trans hold)
  exact hne rfl

/-! ## A page that cannot be read -/

/-- A backend whose pages hold the number of its state, and whose first page can only be read in the
state `0`. -/
def gapOps : Backend Byte where
  cont n := (.error "cont", n)
  step n := (.error "step", n)
  readRegisters n := (.ok [], n)
  readMemory addr len n :=
    if addr = 0 ∧ n ≠ 0 then (.error "read_memory: partial read", n)
    else (.ok (List.replicate len.toNat n), n)

/-- The cache after the second page was read in the state `0`, and an epoch has begun. -/
def gapCache : MemoryCache :=
  MemoryCache.setEpoch
    { cur := (∅ : Std.ExtTreeMap U64 Bytes).insert 0x1000 (List.replicate kPageSize.toNat 0) } 1

/-- The bytes on both sides of the end of the first page. -/
def twoBytes : ByteRange :=
  ⟨0xFFF, 2, by decide, by decide⟩

private theorem session_gap : Session gapOps gapCache { state := 1 } [] := by
  have hread : (({} : MemoryCache).read (fetching gapOps) 0x1000 1 { state := 0 }).2.1 =
      { cur := (∅ : Std.ExtTreeMap U64 Bytes).insert 0x1000
          (List.replicate kPageSize.toNat 0) } := by
    have hpage : MemoryCache.readPage (fetching gapOps) (pageAddr 0x1000) {} { state := 0 } =
        (.ok (List.replicate kPageSize.toNat 0),
          { cur := (∅ : Std.ExtTreeMap U64 Bytes).insert 0x1000
              (List.replicate kPageSize.toNat 0) },
          { state := 0, log := [.fetched 0x1000 kPageSize (List.replicate kPageSize.toNat 0)] }) :=
      rfl
    rw [MemoryCache.read, readLoop_within hpage (by decide) (by decide)]
  have hstart : Session gapOps {} { state := 0 } [] := .start 0
  have hrun := ((hstart.read 0x1000 1).setEpoch 1).guest 1
  rw [hread] at hrun
  exact hrun

/-- In general a change can go unreported: the second byte has changed, and the page of the first
cannot be read. -/
theorem not_reports_complete :
    ¬ ∀ (ops : Backend Byte) (r : ByteRange) (c : MemoryCache) (o : Observed Byte)
      (replies : List Reply), Session ops c o replies →
      (∃ k, DiffersWithin (fetching ops) r c o k) → Reports (fetching ops) r c o := by
  intro hcomplete
  have hread : Unreadable (fetching gapOps) twoBytes gapCache { state := 1 } 0 := ⟨_, rfl⟩
  have hnow : now (fetching gapOps) twoBytes gapCache { state := 1 } 1 =
      .ok (List.replicate kPageSize.toNat 1) := rfl
  have hprev : gapCache.prev[twoBytes.page 1]? = some (List.replicate kPageSize.toNat 0) :=
    Std.ExtTreeMap.getElem?_insert_self
  have hdiffers : DiffersWithin (fetching gapOps) twoBytes gapCache { state := 1 } 1 :=
    ⟨by decide, _, _, hnow, hprev, 1, by decide, by decide, by decide⟩
  exact not_reports_of_unreadable hread (fun j hj => absurd hj (Nat.not_lt_zero j))
    (hcomplete gapOps twoBytes gapCache _ _ session_gap ⟨1, hdiffers⟩)

end Irida.MemoryCache
