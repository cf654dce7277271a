import Irida.Target.Target

/-!
# Reading mapped memory

What `read_memory` returns when the backend serves a page exactly if it is
mapped.  At a stop the cache holds pages of the memory of that stop (`AtStop`),
and a read succeeds exactly if all of the addresses that it asks for are mapped:
one page that is not mapped fails the whole request.
-/

namespace Irida.Target

/-- The bytes of a memory from an address on. -/
@[irreducible] def guestBytes (mem : U64 → Byte) (addr : U64) (n : ℕ) : Bytes :=
  (List.range n).map fun i => mem (addr + BitVec.ofNat 64 i)

@[simp] theorem length_guestBytes (mem : U64 → Byte) (addr : U64) (n : ℕ) :
    (guestBytes mem addr n).length = n := by
  unfold guestBytes
  simp

theorem getElem?_guestBytes (mem : U64 → Byte) (addr : U64) {n i : ℕ} (hi : i < n) :
    (guestBytes mem addr n)[i]? = some (mem (addr + BitVec.ofNat 64 i)) := by
  unfold guestBytes
  simp [hi]

theorem take_guestBytes (mem : U64 → Byte) (addr : U64) (n k : ℕ) :
    (guestBytes mem addr n).take k = guestBytes mem addr (min k n) := by
  unfold guestBytes
  rw [← List.map_take, List.take_range]

/-- All addresses of a range lie in mapped pages. -/
def AllMapped (mapped : U64 → Bool) (addr : U64) (n : ℕ) : Prop :=
  ∀ i < n, mapped (pageAddr (addr + BitVec.ofNat 64 i)) = true

instance (mapped : U64 → Bool) (addr : U64) (n : ℕ) : Decidable (AllMapped mapped addr n) :=
  inferInstanceAs (Decidable (∀ i < n, _))

/-- The backend serves a page, with the bytes of the memory, exactly if it is
mapped.  `Live` is what it needs for that of its own state, and keeps. -/
structure Serves {β : Type*} (ops : Backend β) (Live : β → Prop) (mem : U64 → Byte)
    (mapped : U64 → Bool) : Prop where
  served : ∀ {b page}, Live b → pageAddr page = page → mapped page = true → ∃ b', Live b' ∧
    ops.readMemory page kPageSize b = (.ok (guestBytes mem page kPageSize.toNat), b')
  refused : ∀ {b page}, Live b → pageAddr page = page → mapped page = false → ∃ e b', Live b' ∧
    ops.readMemory page kPageSize b = (.error e, b')

/-- The cache holds mapped pages only, with the bytes of the memory. -/
def CacheServed (mem : U64 → Byte) (mapped : U64 → Bool) (c : MemoryCache) : Prop :=
  ∀ page bytes, c.cur[page]? = some bytes →
    mapped page = true ∧ bytes = guestBytes mem page kPageSize.toNat

theorem cacheServed_setEpoch (mem : U64 → Byte) (mapped : U64 → Bool) (c : MemoryCache)
    (epoch : U64) : CacheServed mem mapped (c.setEpoch epoch) := by
  intro page bytes hpage
  rw [MemoryCache.getElem?_setEpoch] at hpage
  cases hpage

theorem pageAddr_add_pageOff (pos : U64) : pageAddr pos + pageOff pos = pos := by
  rw [pageOff]
  exact add_sub_cancel _ _

section

variable {β : Type*} {ops : Backend β} {Live : β → Prop} {mem : U64 → Byte} {mapped : U64 → Bool}

theorem readPage_serves (hserves : Serves ops Live mem mapped) {page : U64} {c : MemoryCache}
    {b : β} (hpage : pageAddr page = page) (hcache : CacheServed mem mapped c) (hlive : Live b) :
    ∃ r c' b', MemoryCache.readPage ops page c b = (r, c', b') ∧ CacheServed mem mapped c' ∧
      Live b' ∧ (mapped page = true ∧ r = .ok (guestBytes mem page kPageSize.toNat) ∨
        mapped page = false ∧ ∃ e, r = .error e) := by
  unfold MemoryCache.readPage
  cases hcur : c.cur[page]? with
  | some bytes =>
      obtain ⟨hmapped, rfl⟩ := hcache page bytes hcur
      exact ⟨_, c, b, rfl, hcache, hlive, Or.inl ⟨hmapped, rfl⟩⟩
  | none =>
      cases hmapped : mapped page with
      | false =>
          obtain ⟨e, b', hlive', hread⟩ := hserves.refused hlive hpage hmapped
          rw [hread]
          exact ⟨_, c, b', rfl, hcache, hlive', Or.inr ⟨rfl, e, rfl⟩⟩
      | true =>
          obtain ⟨b', hlive', hread⟩ := hserves.served hlive hpage hmapped
          rw [hread]
          refine ⟨_, _, b', rfl, fun other bytes hother => ?_, hlive', Or.inl ⟨rfl, rfl⟩⟩
          -- the page that was served is new in the cache
          simp only [Std.ExtTreeMap.getElem?_insert, Std.compare_eq_iff_eq] at hother
          split at hother
          · next heq =>
              subst heq
              cases hother
              exact ⟨hmapped, rfl⟩
          · exact hcache other bytes hother

theorem allMapped_pageTake_iff {pos remaining : U64} (hmapped : mapped (pageAddr pos) = true) :
    AllMapped mapped pos remaining.toNat ↔
      AllMapped mapped (pos + pageTake pos remaining)
        (remaining - pageTake pos remaining).toNat := by
  have htake := toNat_pageTake pos remaining
  have hsub := toNat_sub_pageTake pos remaining
  constructor
  · intro h i hi
    rw [add_add_ofNat]
    exact h _ (by omega)
  · intro h i hi
    by_cases hfirst : i < (pageTake pos remaining).toNat
    · rw [(MemoryCache.pageAddr_add hfirst).1]
      exact hmapped
    · have hrest := h (i - (pageTake pos remaining).toNat) (by omega)
      rwa [add_add_ofNat, Nat.add_sub_cancel' (by omega)] at hrest

/-- A request succeeds exactly if all of it is mapped. -/
theorem readLoop_serves (hserves : Serves ops Live mem mapped) (pos remaining : U64)
    (out : Bytes) (c : MemoryCache) (b : β) (hcache : CacheServed mem mapped c) (hlive : Live b) :
    ∃ r c' b', MemoryCache.readLoop ops pos remaining out c b = (r, c', b') ∧
      CacheServed mem mapped c' ∧ Live b' ∧
      (AllMapped mapped pos remaining.toNat ∧ (∃ res, r = .ok res) ∨
        ¬ AllMapped mapped pos remaining.toNat ∧ ∃ e, r = .error e) := by
  -- page by page: a page that is refused ends the request, and its first byte is not mapped
  fun_induction MemoryCache.readLoop ops pos remaining out c b with
  | case1 pos out c b =>
      exact ⟨_, c, b, rfl, hcache, hlive,
        Or.inl ⟨fun i hi => absurd hi (Nat.not_lt_zero i), _, rfl⟩⟩
  | case2 pos remaining out c b hrem e c₁ b₁ hpage =>
      obtain ⟨r, c', b', hread, hcache', hlive', ⟨-, hr⟩ | ⟨hmapped, -⟩⟩ :=
        readPage_serves hserves (pageAddr_pageAddr pos) hcache hlive
      · rw [hpage, hr] at hread
        cases hread
      · rw [hpage] at hread
        cases hread
        refine ⟨_, _, _, rfl, hcache', hlive', Or.inr ⟨fun hall => ?_, e, rfl⟩⟩
        have hfirst := hall 0 (BitVec.toNat_pos_of_ne_zero hrem)
        rw [show pos + BitVec.ofNat 64 0 = pos from add_zero pos, hmapped] at hfirst
        cases hfirst
  | case3 pos remaining out c b hrem page c₁ b₁ hpage ih =>
      obtain ⟨r, c', b', hread, hcache', hlive', ⟨hmapped, -⟩ | ⟨-, _, hr⟩⟩ :=
        readPage_serves hserves (pageAddr_pageAddr pos) hcache hlive
      · rw [hpage] at hread
        cases hread
        rw [allMapped_pageTake_iff hmapped]
        exact ih hcache' hlive'
      · rw [hpage, hr] at hread
        cases hread

/-- The targets at one stop of the guest: after `attach` or a run call that
succeeded, and any number of reads, comparisons, and run calls that fail and leave
the memory as it is. -/
inductive AtStop (ops : Backend β) (Live : β → Prop) : Target β → Prop
  | attach {b : β} {t : Target β} : attach ops b = .ok t → Live t.backend → AtStop ops Live t
  | resume {run : β → Result Backend.StopReply × β} {t t' : Target β} {stop : Proto.StopReply} :
      t.resume ops run = (.ok stop, t') → Live t'.backend → AtStop ops Live t'
  | resumeError {run : β → Result Backend.StopReply × β} {t t' : Target β} {e : String} :
      AtStop ops Live t → t.resume ops run = (.error e, t') → Live t'.backend →
      AtStop ops Live t'
  | readMemory {t : Target β} (addr len : U64) : AtStop ops Live t →
      AtStop ops Live (t.readMemory ops addr len).2
  | memoryChanged {t t' : Target β} {changed : Bool} (fuel : ℕ) (addr len : U64) :
      AtStop ops Live t → t.memoryChanged ops fuel addr len = some (changed, t') →
      AtStop ops Live t'

/-- At a stop the cache holds the memory of that stop. -/
theorem AtStop.served (hserves : Serves ops Live mem mapped) {t : Target β}
    (h : AtStop ops Live t) : CacheServed mem mapped t.cache ∧ Live t.backend := by
  have hrotated := cacheServed_setEpoch mem mapped
  induction h with
  | attach hattach hlive =>
      obtain ⟨epoch, hcache⟩ := attach_cache hattach
      exact ⟨hcache ▸ hrotated _ epoch, hlive⟩
  | resume hresume hlive =>
      obtain ⟨-, ⟨_, epoch, -, hcache⟩ | ⟨⟨_, herr⟩, -⟩⟩ := resume_cases hresume
      · exact ⟨hcache ▸ hrotated _ epoch, hlive⟩
      · cases herr
  | resumeError _ hresume hlive ih =>
      obtain ⟨-, ⟨_, _, hok, -⟩ | ⟨-, hcache⟩⟩ := resume_cases hresume
      · cases hok
      · exact ⟨hcache ▸ ih.1, hlive⟩
  | @readMemory t addr len _ ih =>
      obtain ⟨r, c', b', hread, hcache, hlive, -⟩ :=
        readLoop_serves hserves addr len [] t.cache t.backend ih.1 ih.2
      rw [Target.readMemory, MemoryCache.read, hread]
      exact ⟨hcache, hlive⟩
  | memoryChanged fuel addr len _ hchanged ih =>
      refine memoryChanged_induct (P := fun c b => CacheServed mem mapped c ∧ Live b)
        (fun page c b hpage h => ?_) ih hchanged
      obtain ⟨r, c', b', hread, hcache, hlive, -⟩ := readPage_serves hserves hpage h.1 h.2
      rw [hread]
      exact ⟨hcache, hlive⟩

/-- A read returns the bytes asked for if all of them are mapped, and an error otherwise.  The
target after it differs in the cache and in the backend only. -/
theorem readMemory_served (hserves : Serves ops Live mem mapped) {t : Target β}
    (hserved : CacheServed mem mapped t.cache) (hlive : Live t.backend) (addr len : U64) :
    ∃ r c b, t.readMemory ops addr len = (r, { t with cache := c, backend := b }) ∧
      CacheServed mem mapped c ∧ Live b ∧
      (AllMapped mapped addr len.toNat ∧ r = .ok (guestBytes mem addr len.toNat) ∨
        ¬ AllMapped mapped addr len.toNat ∧ ∃ e, r = .error e) := by
  obtain ⟨r, c', b', hread, hcache, hlive', ⟨hall, res, rfl⟩ | ⟨hnot, e, rfl⟩⟩ :=
    readLoop_serves hserves addr len [] t.cache t.backend hserved hlive
  · refine ⟨_, c', b', by rw [Target.readMemory, MemoryCache.read, hread], hcache, hlive',
      Or.inl ⟨hall, ?_⟩⟩
    obtain ⟨bytes, hout, hlen, hbytes⟩ := MemoryCache.readLoop_spec hread
    rw [List.nil_append] at hout
    subst hout
    -- byte by byte, each is at its offset of a page that holds the memory
    refine congrArg Except.ok (List.ext_getElem? fun i => ?_)
    by_cases hi : i < len.toNat
    · obtain ⟨page, hpage, hbyte⟩ := hbytes i hi
      obtain ⟨-, rfl⟩ := hcache _ page hpage
      have hoff : (pageOff (addr + BitVec.ofNat 64 i)).toNat < kPageSize.toNat := by
        rw [toNat_pageOff]
        exact Nat.mod_lt _ (by decide)
      rw [hbyte, getElem?_guestBytes _ _ hi, List.getD_eq_getElem?_getD,
        getElem?_guestBytes _ _ hoff, Option.getD_some, BitVec.ofNat_toNat, BitVec.setWidth_eq,
        pageAddr_add_pageOff]
    · rw [List.getElem?_eq_none (by omega), List.getElem?_eq_none (by simp; omega)]
  · exact ⟨_, c', b', by rw [Target.readMemory, MemoryCache.read, hread], hcache, hlive',
      Or.inr ⟨hnot, e, rfl⟩⟩

theorem readMemory_live (hserves : Serves ops Live mem mapped) {t : Target β}
    (hlive : Live t.backend) (addr len : U64) :
    Live (t.readMemory ops addr len).2.backend := by
  refine MemoryCache.readLoop_induct (P := fun _ b => Live b) (fun page c b hpage hb => ?_)
    addr len [] t.cache t.backend hlive
  unfold MemoryCache.readPage
  cases c.cur[page]? with
  | some bytes => exact hb
  | none =>
      cases hmapped : mapped page with
      | false =>
          obtain ⟨e, b', hlive', hread⟩ := hserves.refused hb hpage hmapped
          rw [hread]
          exact hlive'
      | true =>
          obtain ⟨b', hlive', hread⟩ := hserves.served hb hpage hmapped
          rw [hread]
          exact hlive'

/-- **What `read_memory` returns at a stop**: the bytes asked for if all of them
are mapped, and an error otherwise. -/
theorem AtStop.readMemory_fst (hserves : Serves ops Live mem mapped) {t : Target β}
    (h : AtStop ops Live t) (addr len : U64) :
    (AllMapped mapped addr len.toNat ∧
        (t.readMemory ops addr len).1 = .ok (guestBytes mem addr len.toNat)) ∨
      (¬ AllMapped mapped addr len.toNat ∧ ∃ e, (t.readMemory ops addr len).1 = .error e) := by
  obtain ⟨hserved, hlive⟩ := h.served hserves
  obtain ⟨r, c, b, hread, -, -, hr⟩ := readMemory_served hserves hserved hlive addr len
  rw [hread]
  exact hr

end

end Irida.Target
