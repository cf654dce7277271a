import Irida.Backend.Backend
import Std.Data.ExtTreeMap

/-!
# The page cache

`memory_cache.cpp`: guest memory is read by pages of the backend and kept until
the next epoch.

Every read goes through `readPage`.  `readLoop_induct` carries a property of the
cache and the backend over all the page reads of a request, and `readLoop_spec`
says where the bytes that are returned come from: from the pages that are in the
cache afterwards.
-/

namespace Irida

/-- `kPageSize`. -/
def kPageSize : U64 := 4096

/-- The page of an address. -/
def pageAddr (pos : U64) : U64 :=
  pos / kPageSize * kPageSize

/-- The offset of an address in its page. -/
def pageOff (pos : U64) : U64 :=
  pos - pageAddr pos

/-- `std::min(avail, remaining)`: how much of a request the page of `pos` serves. -/
def pageTake (pos remaining : U64) : U64 :=
  let avail := kPageSize - pageOff pos
  if avail ≤ remaining then avail else remaining

theorem toNat_pageAddr (pos : U64) : (pageAddr pos).toNat = pos.toNat / 4096 * 4096 := by
  have hpos := pos.isLt
  have hsize : kPageSize.toNat = 4096 := rfl
  rw [pageAddr, BitVec.toNat_mul, BitVec.toNat_udiv, hsize]
  omega

theorem toNat_pageOff (pos : U64) : (pageOff pos).toNat = pos.toNat % 4096 := by
  have hpos := pos.isLt
  have hle : pageAddr pos ≤ pos := by
    rw [BitVec.le_def, toNat_pageAddr]
    omega
  rw [pageOff, BitVec.toNat_sub_of_le hle, toNat_pageAddr]
  omega

theorem toNat_pageTake (pos remaining : U64) :
    (pageTake pos remaining).toNat = min (4096 - pos.toNat % 4096) remaining.toNat := by
  have hoff := toNat_pageOff pos
  have hsize : kPageSize.toNat = 4096 := rfl
  have hle : pageOff pos ≤ kPageSize := by
    rw [BitVec.le_def]
    omega
  have havail : (kPageSize - pageOff pos).toNat = 4096 - pos.toNat % 4096 := by
    rw [BitVec.toNat_sub_of_le hle, hsize, hoff]
  simp only [pageTake]
  split
  · next h =>
      rw [BitVec.le_def] at h
      omega
  · next h =>
      rw [BitVec.le_def] at h
      omega

theorem pageAddr_pageAddr (pos : U64) : pageAddr (pageAddr pos) = pageAddr pos := by
  apply BitVec.eq_of_toNat_eq
  rw [toNat_pageAddr, toNat_pageAddr]
  omega

/-- The page after a page begins at a page, also beyond the end of the address space. -/
theorem pageAddr_add_kPageSize {page : U64} (h : pageAddr page = page) :
    pageAddr (page + kPageSize) = page + kPageSize := by
  have hpage : page.toNat / 4096 * 4096 = page.toNat := by
    rw [← toNat_pageAddr, h]
  have hsize : kPageSize.toNat = 4096 := rfl
  have hdvd : 4096 ∣ page.toNat := Dvd.intro_left _ hpage
  have hsum : 4096 ∣ (page.toNat + 4096) % 2 ^ 64 :=
    (Nat.dvd_mod_iff (by decide)).mpr (Nat.dvd_add_self_right.mpr hdvd)
  apply BitVec.eq_of_toNat_eq
  rw [toNat_pageAddr, BitVec.toNat_add, hsize]
  exact Nat.div_mul_cancel hsum

theorem toNat_sub_pageTake (pos remaining : U64) :
    (remaining - pageTake pos remaining).toNat =
      remaining.toNat - (pageTake pos remaining).toNat := by
  refine BitVec.toNat_sub_of_le ?_
  rw [BitVec.le_def, toNat_pageTake]
  exact Nat.min_le_right _ _

theorem add_add_ofNat (pos step : U64) (i : ℕ) :
    pos + step + BitVec.ofNat 64 i = pos + BitVec.ofNat 64 (step.toNat + i) := by
  rw [add_assoc, BitVec.ofNat_add, BitVec.ofNat_toNat, BitVec.setWidth_eq]

/-- `MemoryCache`. -/
structure MemoryCache where
  epoch : U64 := 0
  cur : Std.ExtTreeMap U64 Bytes := ∅
  prev : Std.ExtTreeMap U64 Bytes := ∅

namespace MemoryCache

/-- `set_epoch`. -/
def setEpoch (c : MemoryCache) (epoch : U64) : MemoryCache :=
  { epoch := epoch, prev := c.cur, cur := ∅ }

section Read

variable {β : Type*} (backend : Backend β)

/-- `read_page`. -/
def readPage (page : U64) (c : MemoryCache) (b : β) : Result Bytes × MemoryCache × β :=
  match c.cur[page]? with
  | some bytes => (.ok bytes, c, b)
  | none =>
    match backend.readMemory page kPageSize b with
    | (.error e, b) => (.error e, c, b)
    | (.ok fetched, b) => (.ok fetched, { c with cur := c.cur.insert page fetched }, b)

/-- The bytes that a page contributes to a request.  What a short page lacks is
filled up with zeros. -/
def pageBytes (page : Bytes) (pos remaining : U64) : Bytes :=
  (List.range (pageTake pos remaining).toNat).map fun i => page.getD ((pageOff pos).toNat + i) 0

/-- The loop of `read`. -/
def readLoop (pos remaining : U64) (out : Bytes) (c : MemoryCache) (b : β) :
    Result Bytes × MemoryCache × β :=
  if _ : remaining = 0 then (.ok out, c, b)
  else
    match readPage backend (pageAddr pos) c b with
    | (.error e, c, b) => (.error e, c, b)
    | (.ok page, c, b) =>
      readLoop (pos + pageTake pos remaining) (remaining - pageTake pos remaining)
        (out ++ pageBytes page pos remaining) c b
termination_by remaining.toNat
decreasing_by
  have htake := toNat_pageTake pos remaining
  have hpos := BitVec.toNat_pos_of_ne_zero ‹¬remaining = 0›
  rw [toNat_sub_pageTake]
  omega

/-- `read`. -/
def read (addr len : U64) (c : MemoryCache) (b : β) : Result Bytes × MemoryCache × β :=
  readLoop backend addr len [] c b

/-- The loop of `changed_since_last_epoch`.  It has no end if the last page is
the last of the address space. -/
def changedLoop (lastPage : U64) : ℕ → U64 → MemoryCache → β → Option (Bool × MemoryCache × β)
  | 0, _, _, _ => none
  | fuel + 1, page, c, b =>
    if page ≤ lastPage then
      match readPage backend page c b with
      | (.error _, c, b) => some (false, c, b)
      | (.ok curPage, c, b) =>
        match c.prev[page]? with
        | none => changedLoop lastPage fuel (page + kPageSize) c b
        | some prevPage =>
          if curPage ≠ prevPage then some (true, c, b)
          else changedLoop lastPage fuel (page + kPageSize) c b
    else some (false, c, b)

/-- `changed_since_last_epoch`. -/
def changedSinceLastEpoch (fuel : ℕ) (addr len : U64) (c : MemoryCache) (b : β) :
    Option (Bool × MemoryCache × β) :=
  if len = 0 then some (false, c, b)
  else changedLoop backend (pageAddr (addr + len - 1)) fuel (pageAddr addr) c b

end Read

/-! ## What a read does -/

section Spec

variable {β : Type*} {backend : Backend β}

@[simp] theorem getElem?_setEpoch (c : MemoryCache) (epoch page : U64) :
    (c.setEpoch epoch).cur[page]? = none := by
  simp [setEpoch]

/-- A page read: the page is cached, or it is asked for and served or not. -/
theorem readPage_cases (page : U64) (c : MemoryCache) (b : β) :
    (∃ bytes, c.cur[page]? = some bytes ∧ readPage backend page c b = (.ok bytes, c, b)) ∨
    (c.cur[page]? = none ∧ ∃ e b', backend.readMemory page kPageSize b = (.error e, b') ∧
      readPage backend page c b = (.error e, c, b')) ∨
    (c.cur[page]? = none ∧ ∃ bytes b', backend.readMemory page kPageSize b = (.ok bytes, b') ∧
      readPage backend page c b = (.ok bytes, { c with cur := c.cur.insert page bytes }, b')) := by
  unfold readPage
  cases hcached : c.cur[page]? with
  | some bytes => exact Or.inl ⟨bytes, rfl, rfl⟩
  | none =>
      refine Or.inr ?_
      match hserved : backend.readMemory page kPageSize b with
      | (.error e, b') => exact Or.inl ⟨rfl, e, b', rfl, rfl⟩
      | (.ok bytes, b') => exact Or.inr ⟨rfl, bytes, b', rfl, rfl⟩

/-- What holds before the page reads of a request, and is kept by each of them,
holds after the request. -/
theorem readLoop_induct {P : MemoryCache → β → Prop}
    (hstep : ∀ page c b, pageAddr page = page → P c b →
      P (readPage backend page c b).2.1 (readPage backend page c b).2.2)
    (pos remaining : U64) (out : Bytes) (c : MemoryCache) (b : β) (h : P c b) :
    P (readLoop backend pos remaining out c b).2.1
      (readLoop backend pos remaining out c b).2.2 := by
  fun_induction readLoop backend pos remaining out c b with
  | case1 => exact h
  | case2 pos remaining out c b _ e c' b' hpage =>
      have hnext := hstep (pageAddr pos) c b (pageAddr_pageAddr pos) h
      rwa [hpage] at hnext
  | case3 pos remaining out c b _ page c' b' hpage ih =>
      have hnext := hstep (pageAddr pos) c b (pageAddr_pageAddr pos) h
      rw [hpage] at hnext
      exact ih hnext

/-- The same for the page reads of a comparison. -/
theorem changedLoop_induct {P : MemoryCache → β → Prop}
    (hstep : ∀ page c b, pageAddr page = page → P c b →
      P (readPage backend page c b).2.1 (readPage backend page c b).2.2)
    {lastPage : U64} {fuel : ℕ} {page : U64} {c : MemoryCache} {b : β} {changed : Bool}
    {c' : MemoryCache} {b' : β} (haligned : pageAddr page = page) (h : P c b)
    (hrun : changedLoop backend lastPage fuel page c b = some (changed, c', b')) : P c' b' := by
  induction fuel generalizing page c b with
  | zero => simp [changedLoop] at hrun
  | succ fuel ih =>
      have hnext := hstep page c b haligned h
      have hafter := pageAddr_add_kPageSize haligned
      rw [changedLoop] at hrun
      split at hrun
      · split at hrun
        · next hpage =>
            obtain ⟨rfl, rfl, rfl⟩ : _ ∧ _ ∧ _ := by simpa using hrun
            rwa [hpage] at hnext
        · next hpage =>
            rw [hpage] at hnext
            split at hrun
            · exact ih hafter hnext hrun
            · split at hrun
              · obtain ⟨rfl, rfl, rfl⟩ : _ ∧ _ ∧ _ := by simpa using hrun
                exact hnext
              · exact ih hafter hnext hrun
      · obtain ⟨rfl, rfl, rfl⟩ : _ ∧ _ ∧ _ := by simpa using hrun
        exact h

theorem changedSinceLastEpoch_induct {P : MemoryCache → β → Prop}
    (hstep : ∀ page c b, pageAddr page = page → P c b →
      P (readPage backend page c b).2.1 (readPage backend page c b).2.2)
    {fuel : ℕ} {addr len : U64} {c c' : MemoryCache} {b b' : β} {changed : Bool} (h : P c b)
    (hrun : changedSinceLastEpoch backend fuel addr len c b = some (changed, c', b')) :
    P c' b' := by
  unfold changedSinceLastEpoch at hrun
  split at hrun
  · obtain ⟨rfl, rfl, rfl⟩ : _ ∧ _ ∧ _ := by simpa using hrun
    exact h
  · exact changedLoop_induct hstep (pageAddr_pageAddr addr) h hrun

theorem readPage_cur {page other : U64} {c : MemoryCache} {b : β} {bytes : Bytes}
    (h : c.cur[other]? = some bytes) :
    (readPage backend page c b).2.1.cur[other]? = some bytes := by
  rcases @readPage_cases β backend page c b with
    ⟨_, -, hread⟩ | ⟨-, _, _, -, hread⟩ | ⟨hnone, fetched, b', -, hread⟩ <;> rw [hread]
  · exact h
  · exact h
  · have hne : page ≠ other := by
      rintro rfl
      rw [hnone] at h
      cases h
    simpa [Std.ExtTreeMap.getElem?_insert, hne] using h

theorem readLoop_cur {pos remaining other : U64} {out : Bytes} {c : MemoryCache} {b : β}
    {bytes : Bytes} (h : c.cur[other]? = some bytes) :
    (readLoop backend pos remaining out c b).2.1.cur[other]? = some bytes :=
  readLoop_induct (P := fun c _ => c.cur[other]? = some bytes) (fun _ _ _ _ h => readPage_cur h)
    pos remaining out c b h

theorem readPage_ok {page : U64} {c c' : MemoryCache} {b b' : β} {bytes : Bytes}
    (h : readPage backend page c b = (.ok bytes, c', b')) : c'.cur[page]? = some bytes := by
  rcases @readPage_cases β backend page c b with
    ⟨_, hcached, hread⟩ | ⟨-, _, _, -, hread⟩ | ⟨-, _, _, -, hread⟩ <;>
    rw [h] at hread <;> cases hread
  · exact hcached
  · exact Std.ExtTreeMap.getElem?_insert_self

/-- The address `i` bytes into a request, and its page. -/
theorem pageAddr_add {pos remaining : U64} {i : ℕ} (hi : i < (pageTake pos remaining).toNat) :
    pageAddr (pos + BitVec.ofNat 64 i) = pageAddr pos ∧
      (pageOff (pos + BitVec.ofNat 64 i)).toNat = (pageOff pos).toNat + i := by
  have htake := toNat_pageTake pos remaining
  have hpos := pos.isLt
  have hsum : (pos + BitVec.ofNat 64 i).toNat = pos.toNat + i := by
    rw [BitVec.toNat_add, BitVec.toNat_ofNat]
    omega
  constructor
  · apply BitVec.eq_of_toNat_eq
    rw [toNat_pageAddr, toNat_pageAddr, hsum]
    omega
  · rw [toNat_pageOff, toNat_pageOff, hsum]
    omega

/-- **Where the bytes of a request come from**: each is the byte at its offset of
its page, and the page is in the cache after the request. -/
theorem readLoop_spec {pos remaining : U64} {out res : Bytes} {c c' : MemoryCache} {b b' : β}
    (h : readLoop backend pos remaining out c b = (.ok res, c', b')) :
    ∃ bytes, res = out ++ bytes ∧ bytes.length = remaining.toNat ∧
      ∀ i < remaining.toNat, ∃ page,
        c'.cur[pageAddr (pos + BitVec.ofNat 64 i)]? = some page ∧
        bytes[i]? = some (page.getD (pageOff (pos + BitVec.ofNat 64 i)).toNat 0) := by
  fun_induction readLoop backend pos remaining out c b with
  | case1 pos out c b =>
      cases h
      exact ⟨[], by simp, rfl, fun i hi => absurd hi (Nat.not_lt_zero i)⟩
  | case2 => cases h
  | case3 pos remaining out c b hrem page c₁ b₁ hpage ih =>
      obtain ⟨rest, rfl, hlen, hrest⟩ := ih h
      have htake := toNat_pageTake pos remaining
      have hsub := toNat_sub_pageTake pos remaining
      have hbytes : (pageBytes page pos remaining).length = (pageTake pos remaining).toNat := by
        simp [pageBytes]
      -- the page of this iteration is still cached at the end
      have hcached : c'.cur[pageAddr pos]? = some page := by
        have hkeep : (readLoop backend (pos + pageTake pos remaining)
            (remaining - pageTake pos remaining) (out ++ pageBytes page pos remaining)
            c₁ b₁).2.1.cur[pageAddr pos]? = some page := readLoop_cur (readPage_ok hpage)
        rwa [h] at hkeep
      refine ⟨pageBytes page pos remaining ++ rest, by rw [List.append_assoc], ?_, ?_⟩
      · rw [List.length_append, hbytes, hlen, hsub]
        omega
      · intro i hi
        -- the byte is in the page of this iteration or in what is read behind it
        by_cases hfirst : i < (pageTake pos remaining).toNat
        · obtain ⟨haddr, hoff⟩ := pageAddr_add hfirst
          refine ⟨page, by rw [haddr, hcached], ?_⟩
          rw [List.getElem?_append_left (by rwa [hbytes]), hoff]
          simp [pageBytes, hfirst]
        · obtain ⟨other, hother, hbyte⟩ := hrest (i - (pageTake pos remaining).toNat) (by omega)
          have hpos : pos + pageTake pos remaining +
              BitVec.ofNat 64 (i - (pageTake pos remaining).toNat) = pos + BitVec.ofNat 64 i := by
            rw [add_add_ofNat, Nat.add_sub_cancel' (Nat.le_of_not_lt hfirst)]
          rw [hpos] at hother hbyte
          refine ⟨other, hother, ?_⟩
          rw [List.getElem?_append_right (by omega), hbytes, hbyte]

/-- A request within one page is served by one page read. -/
theorem readLoop_within {pos remaining : U64} {out page : Bytes} {c c' : MemoryCache} {b b' : β}
    (hread : readPage backend (pageAddr pos) c b = (.ok page, c', b')) (hne : remaining ≠ 0)
    (hfit : (pageOff pos).toNat + remaining.toNat ≤ 4096) :
    readLoop backend pos remaining out c b =
      (.ok (out ++ pageBytes page pos remaining), c', b') := by
  have htake : pageTake pos remaining = remaining := by
    apply BitVec.eq_of_toNat_eq
    rw [toNat_pageTake, ← toNat_pageOff]
    omega
  rw [readLoop, dif_neg hne, hread]
  simp only [htake, BitVec.sub_self]
  rw [readLoop]
  rfl

theorem readPage_cached {page : U64} {c : MemoryCache} {b : β} {bytes : Bytes}
    (h : c.cur[page]? = some bytes) : readPage backend page c b = (.ok bytes, c, b) := by
  simp [readPage, h]

end Spec

end MemoryCache

end Irida
