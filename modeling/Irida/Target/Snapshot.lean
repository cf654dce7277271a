import Irida.Target.Freshness

/-!
# Snapshots of guest memory

What the page cache promises within an epoch: all that is read is of one
snapshot.  The guest may change its memory between any two calls, so a snapshot is
put together from pages that were fetched at different times, but each page is
fetched at most once and stays as it is until the epoch ends.

`Session` are the runs of the three operations, with the fetches and the replies of the
present epoch.  `Snapshot` is the invariant: the cache holds exactly the pages
that were fetched in the epoch, and all replies are read off the cache.
-/

namespace Irida.MemoryCache

open Target (Observed Event)

/-- A reply to a read. -/
structure Reply where
  addr : U64
  len : U64
  bytes : Bytes

/-- The replies after a read, which may have failed. -/
def repliesAfter (addr len : U64) (replies : List Reply) : Result Bytes → List Reply
  | .ok bytes => ⟨addr, len, bytes⟩ :: replies
  | .error _ => replies

section

variable {β : Type*} (ops : Backend β)

/-- The backend, with the pages that it serves in its log. -/
abbrev fetching : Backend (Observed β) :=
  Target.observe ops (fun _ => false) (fun _ => false)

/-- The runs of the operations on a cache, with the log and the replies of the present
epoch.  Between two calls the guest may do anything. -/
inductive Session : MemoryCache → Observed β → List Reply → Prop
  | start (b : β) : Session {} { state := b } []
  | setEpoch {c : MemoryCache} {o : Observed β} {replies : List Reply} (epoch : U64) :
      Session c o replies → Session (c.setEpoch epoch) { state := o.state } []
  | read {c : MemoryCache} {o : Observed β} {replies : List Reply} (addr len : U64) :
      Session c o replies → Session (c.read (fetching ops) addr len o).2.1
        (c.read (fetching ops) addr len o).2.2
        (repliesAfter addr len replies (c.read (fetching ops) addr len o).1)
  | changed {c c' : MemoryCache} {o o' : Observed β} {replies : List Reply} {changed : Bool}
      (fuel : ℕ) (addr len : U64) : Session c o replies →
      changedSinceLastEpoch (fetching ops) fuel addr len c o = some (changed, c', o') →
      Session c' o' replies
  | guest {c : MemoryCache} {o : Observed β} {replies : List Reply} (b : β) :
      Session c o replies → Session c { o with state := b } replies

end

/-- A byte of the page of an address, as it was fetched. -/
def FetchedByte (log : List Event) (addr : U64) (byte : Byte) : Prop :=
  ∃ page, .fetched (pageAddr addr) kPageSize page ∈ log ∧ page.length = kPageSize.toNat ∧
    page[(pageOff addr).toNat]? = some byte

/-- Each byte of a reply is that of its address in the cache. -/
def ReadOff (c : MemoryCache) (r : Reply) : Prop :=
  r.bytes.length = r.len.toNat ∧ ∀ i < r.len.toNat, ∃ page,
    c.cur[pageAddr (r.addr + BitVec.ofNat 64 i)]? = some page ∧
    r.bytes[i]? = some (page.getD (pageOff (r.addr + BitVec.ofNat 64 i)).toNat 0)

/-- The cache holds exactly the pages that are in the log, all of them whole, and the replies
are read off it. -/
structure Snapshot (c : MemoryCache) (log : List Event) (replies : List Reply) : Prop where
  cached_iff : ∀ (page : U64) (bytes : Bytes),
    c.cur[page]? = some bytes ↔ .fetched page kPageSize bytes ∈ log
  whole : ∀ (page : U64) (bytes : Bytes),
    c.cur[page]? = some bytes → bytes.length = kPageSize.toNat
  replies : ∀ r ∈ replies, ReadOff c r

theorem ReadOff.mono {c c' : MemoryCache} {r : Reply} (h : ReadOff c r)
    (hcur : ∀ (page : U64) (bytes : Bytes), c.cur[page]? = some bytes →
      c'.cur[page]? = some bytes) : ReadOff c' r := by
  refine ⟨h.1, fun i hi => ?_⟩
  obtain ⟨page, hpage, hbyte⟩ := h.2 i hi
  exact ⟨page, hcur _ page hpage, hbyte⟩

theorem Snapshot.setEpoch (c : MemoryCache) (epoch : U64) : Snapshot (c.setEpoch epoch) [] [] := by
  constructor
  · intro page bytes
    rw [getElem?_setEpoch]
    exact iff_of_false (fun h => by cases h) List.not_mem_nil
  · intro page bytes h
    rw [getElem?_setEpoch] at h
    cases h
  · exact fun r hr => absurd hr List.not_mem_nil

theorem Snapshot.content_unique {c : MemoryCache} {log : List Event} {replies : List Reply}
    (h : Snapshot c log replies) {addr : U64} {byte byte' : Byte}
    (hbyte : FetchedByte log addr byte) (hbyte' : FetchedByte log addr byte') : byte = byte' := by
  obtain ⟨page, hpage, -, hget⟩ := hbyte
  obtain ⟨page', hpage', -, hget'⟩ := hbyte'
  have hcached := (h.cached_iff _ page).mpr hpage
  rw [(h.cached_iff _ page').mpr hpage', Option.some.injEq] at hcached
  rw [hcached, hget, Option.some.injEq] at hget'
  exact hget'

/-- A reply consists of bytes that were fetched. -/
theorem Snapshot.fetchedByte {c : MemoryCache} {log : List Event} {replies : List Reply}
    (h : Snapshot c log replies) {r : Reply} (hr : r ∈ replies) {i : ℕ} (hi : i < r.len.toNat) :
    ∃ byte, r.bytes[i]? = some byte ∧ FetchedByte log (r.addr + BitVec.ofNat 64 i) byte := by
  obtain ⟨page, hpage, hbyte⟩ := (h.replies r hr).2 i hi
  have hlen := h.whole _ page hpage
  have hoff : (pageOff (r.addr + BitVec.ofNat 64 i)).toNat < page.length := by
    rw [hlen, toNat_pageOff]
    exact Nat.mod_lt _ (by decide)
  refine ⟨page[(pageOff (r.addr + BitVec.ofNat 64 i)).toNat], ?_, page,
    (h.cached_iff _ page).mp hpage, hlen, List.getElem?_eq_getElem hoff⟩
  rw [hbyte, List.getD_eq_getElem?_getD, List.getElem?_eq_getElem hoff, Option.getD_some]

section

variable {β : Type*} {ops : Backend β}

/-- Watching the fetches changes nothing in a page read. -/
theorem readPage_fetching (page : U64) (c : MemoryCache) (o : Observed β) :
    c.readPage ops page o.state =
      ((c.readPage (fetching ops) page o).1, (c.readPage (fetching ops) page o).2.1,
        (c.readPage (fetching ops) page o).2.2.state) := by
  rcases Target.readPage_observe_cases page c o with ⟨bytes, hcached, hread⟩ |
    ⟨hnone, e, b, hserved, hread⟩ | ⟨hnone, fetched, b, hserved, hread⟩
  · rw [hread, readPage_cached hcached]
  · rw [hread]
    simp [MemoryCache.readPage, hnone, hserved]
  · rw [hread]
    simp [MemoryCache.readPage, hnone, hserved]

/-- Watching the fetches changes nothing in a read. -/
theorem read_fetching (addr len : U64) (c : MemoryCache) (o : Observed β) :
    c.read ops addr len o.state =
      ((c.read (fetching ops) addr len o).1, (c.read (fetching ops) addr len o).2.1,
        (c.read (fetching ops) addr len o).2.2.state) := by
  unfold MemoryCache.read
  generalize ([] : Bytes) = out
  fun_induction readLoop (fetching ops) addr len out c o with
  | case1 pos out c o =>
      rw [readLoop]
      rfl
  | case2 pos remaining out c o hrem e c' o' hpage =>
      rw [readLoop, dif_neg hrem, readPage_fetching, hpage]
  | case3 pos remaining out c o hrem page c' o' hpage ih =>
      rw [readLoop, dif_neg hrem, readPage_fetching, hpage]
      exact ih

/-- Each page that the backend serves is whole. -/
def ServesWhole (ops : Backend β) : Prop :=
  ∀ page b bytes b', pageAddr page = page →
    ops.readMemory page kPageSize b = (.ok bytes, b') → bytes.length = kPageSize.toNat

/-- A page that is fetched was not cached, so the cache still holds what is in the log. -/
theorem cached_iff_readPage {c : MemoryCache} {o : Observed β} (page : U64)
    (h : ∀ (page : U64) (bytes : Bytes),
      c.cur[page]? = some bytes ↔ .fetched page kPageSize bytes ∈ o.log) :
    ∀ (other : U64) (bytes : Bytes),
      (c.readPage (fetching ops) page o).2.1.cur[other]? = some bytes ↔
        .fetched other kPageSize bytes ∈ (c.readPage (fetching ops) page o).2.2.log := by
  rcases Target.readPage_observe_cases page c o with ⟨_, -, hread⟩ | ⟨-, _, _, -, hread⟩ |
    ⟨hnone, fetched, b, -, hread⟩
  · rwa [hread]
  · rwa [hread]
  · intro other bytes
    rw [hread, List.mem_cons, Event.fetched.injEq, ← h]
    simp only [Std.ExtTreeMap.getElem?_insert, Std.compare_eq_iff_eq]
    split
    · next hsame =>
        subst hsame
        rw [hnone]
        simp [eq_comm]
    · next hother => simp [Ne.symm hother]

theorem Snapshot.readPage (hwhole : ServesWhole ops) {c : MemoryCache} {o : Observed β}
    {replies : List Reply} {page : U64} (hpage : pageAddr page = page)
    (h : Snapshot c o.log replies) :
    Snapshot (c.readPage (fetching ops) page o).2.1 (c.readPage (fetching ops) page o).2.2.log
      replies where
  cached_iff := cached_iff_readPage page h.cached_iff
  whole other bytes hother := by
    rcases Target.readPage_observe_cases page c o with ⟨_, -, hread⟩ | ⟨-, _, _, -, hread⟩ |
      ⟨-, fetched, b, hserved, hread⟩ <;> rw [hread] at hother
    · exact h.whole other bytes hother
    · exact h.whole other bytes hother
    · simp only [Std.ExtTreeMap.getElem?_insert, Std.compare_eq_iff_eq] at hother
      split at hother
      · cases hother
        exact hwhole _ _ _ _ hpage hserved
      · exact h.whole other bytes hother
  replies r hr := (h.replies r hr).mono fun _ _ hother => readPage_cur hother

theorem Snapshot.read (hwhole : ServesWhole ops) {c : MemoryCache} {o : Observed β}
    {replies : List Reply} (addr len : U64) (h : Snapshot c o.log replies) :
    Snapshot (c.read (fetching ops) addr len o).2.1 (c.read (fetching ops) addr len o).2.2.log
      (repliesAfter addr len replies (c.read (fetching ops) addr len o).1) := by
  have hkeep := readLoop_induct (P := fun c (o : Observed β) => Snapshot c o.log replies)
    (fun _ _ _ hpage h => h.readPage hwhole hpage) addr len [] c o h
  match hread : readLoop (fetching ops) addr len [] c o with
  | (.error e, c', o') =>
      rw [hread] at hkeep
      rw [MemoryCache.read, hread]
      exact hkeep
  | (.ok bytes, c', o') =>
      rw [hread] at hkeep
      rw [MemoryCache.read, hread]
      obtain ⟨bytes', rfl, hlen, hbytes⟩ := readLoop_spec hread
      refine ⟨hkeep.cached_iff, hkeep.whole, ?_⟩
      exact List.forall_mem_cons.mpr ⟨⟨hlen, hbytes⟩, hkeep.replies⟩

/-- **Every reachable cache holds a snapshot.** -/
theorem Session.snapshot (hwhole : ServesWhole ops) {c : MemoryCache} {o : Observed β}
    {replies : List Reply} (h : Session ops c o replies) : Snapshot c o.log replies := by
  induction h with
  | start b => exact Snapshot.setEpoch {} 0
  | setEpoch epoch _ _ => exact Snapshot.setEpoch _ epoch
  | read addr len _ ih => exact ih.read hwhole addr len
  | @changed c c' o o' replies changed fuel addr len _ hchanged ih =>
      exact changedSinceLastEpoch_induct
        (P := fun c (o : Observed β) => Snapshot c o.log replies)
        (fun _ _ _ hpage h => h.readPage hwhole hpage) ih hchanged
  | guest b _ ih => exact ih

/-- A read changes no page that is cached, of this epoch or the one before. -/
theorem read_keeps (addr len : U64) (c : MemoryCache) (o : Observed β) :
    (∀ (page : U64) (bytes : Bytes), c.cur[page]? = some bytes →
      (c.read (fetching ops) addr len o).2.1.cur[page]? = some bytes) ∧
    (c.read (fetching ops) addr len o).2.1.prev = c.prev := by
  refine ⟨fun page bytes h => readLoop_cur h, ?_⟩
  refine readLoop_induct (P := fun c' (_ : Observed β) => c'.prev = c.prev) ?_ addr len [] c o rfl
  intro page c' o' _ h
  rcases Target.readPage_observe_cases page c' o' with ⟨_, -, hread⟩ | ⟨-, _, _, -, hread⟩ |
    ⟨-, _, _, -, hread⟩ <;> rwa [hread]

/-- **Snapshot consistency**: in every run, the replies of an epoch have the length
asked for, consist of bytes that were fetched in this epoch, and agree wherever they overlap;
and a read that fails changes no page that is cached. -/
theorem Session.consistent (hwhole : ServesWhole ops) {c : MemoryCache} {o : Observed β}
    {replies : List Reply} (h : Session ops c o replies) :
    (∀ r ∈ replies, r.bytes.length = r.len.toNat ∧ ∀ i < r.len.toNat, ∃ byte,
      r.bytes[i]? = some byte ∧ FetchedByte o.log (r.addr + BitVec.ofNat 64 i) byte) ∧
    (∀ r ∈ replies, ∀ r' ∈ replies, ∀ i < r.len.toNat, ∀ j < r'.len.toNat,
      r.addr + BitVec.ofNat 64 i = r'.addr + BitVec.ofNat 64 j → r.bytes[i]? = r'.bytes[j]?) ∧
    (∀ addr len e c' o', c.read (fetching ops) addr len o = (.error e, c', o') →
      (∀ (page : U64) (bytes : Bytes), c.cur[page]? = some bytes → c'.cur[page]? = some bytes) ∧
        c'.prev = c.prev) := by
  have hsnap := h.snapshot hwhole
  refine ⟨fun r hr => ⟨(hsnap.replies r hr).1, fun i hi => hsnap.fetchedByte hr hi⟩, ?_, ?_⟩
  · intro r hr r' hr' i hi j hj haddr
    obtain ⟨byte, hbyte, hfetched⟩ := hsnap.fetchedByte hr hi
    obtain ⟨byte', hbyte', hfetched'⟩ := hsnap.fetchedByte hr' hj
    rw [← haddr] at hfetched'
    rw [hbyte, hbyte', hsnap.content_unique hfetched hfetched']
  · intro addr len e c' o' hread
    obtain ⟨hcur, hprev⟩ := @read_keeps β ops addr len c o
    rw [hread] at hcur hprev
    exact ⟨hcur, hprev⟩

end

/-! ## A memory that changes while it is read -/

/-- A backend whose memory holds the number of pages that it has served. -/
def countingOps : Backend Byte where
  cont n := (.error "cont", n)
  step n := (.error "step", n)
  readRegisters n := (.ok [], n)
  readMemory _ len n := (.ok (List.replicate len.toNat n), n + 1)

/-- The cache after a page was read. -/
def countingCache : MemoryCache :=
  { cur := (∅ : Std.ExtTreeMap U64 Bytes).insert 0 (List.replicate kPageSize.toNat 0) }

/-- The backend after that, and after the guest changed its memory. -/
def countingState (n : Byte) : Observed Byte :=
  { state := n, log := [.fetched 0 kPageSize (List.replicate kPageSize.toNat 0)] }

private theorem counting_read :
    MemoryCache.read (fetching countingOps) 0 2 {} { state := 0 } =
      (.ok [0, 0], countingCache, countingState 1) := by
  have hread : MemoryCache.readPage (fetching countingOps) (pageAddr 0) {} { state := 0 } =
      (.ok (List.replicate kPageSize.toNat 0), countingCache, countingState 1) := rfl
  rw [MemoryCache.read, readLoop_within hread (by decide) (by decide)]
  rfl

private theorem counting_read_again :
    countingCache.read (fetching countingOps) 1 1 (countingState 7) =
      (.ok [0], countingCache, countingState 7) := by
  have hpage : countingCache.cur[pageAddr 1]? = some (List.replicate kPageSize.toNat 0) :=
    Std.ExtTreeMap.getElem?_insert_self
  rw [MemoryCache.read, readLoop_within (readPage_cached hpage) (by decide) (by decide)]
  rfl

/-- Two bytes are read, the memory changes, and one of them is read again. -/
theorem Session.consistent_counting :
    Session countingOps countingCache (countingState 7) [⟨1, 1, [0]⟩, ⟨0, 2, [0, 0]⟩] ∧
      FetchedByte (countingState 7).log 1 0 := by
  have hwhole : ServesWhole countingOps := by
    intro page b bytes b' _ hread
    cases hread
    exact List.length_replicate
  have hstart : Session countingOps {} { state := 0 } [] := .start 0
  have hfirst := hstart.read 0 2
  rw [counting_read] at hfirst
  have hsecond := (hfirst.guest 7).read 1 1
  have hstate : ({ countingState 1 with state := 7 } : Observed Byte) = countingState 7 := rfl
  rw [hstate, counting_read_again] at hsecond
  refine ⟨hsecond, ?_⟩
  obtain ⟨byte, hbyte, hfetched⟩ :=
    ((hsecond.consistent hwhole).1 _ (List.mem_cons_self ..)).2 0 (by decide)
  cases hbyte
  exact hfetched

end Irida.MemoryCache
