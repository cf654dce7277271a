import Irida.Backend.Gdb
import Irida.Target.Snapshot

/-!
# Pages that come short

A backend may answer a page read with fewer bytes than were asked for: the client over gdb-remote
decodes what it gets and does not look at the length.  The cache keeps such a page as it is, and
`read` fills up what it lacks with zeros.

So a successful read has the length that was asked for in any case, and each of its bytes was
supplied by the backend exactly if the pages that the backend served in this epoch reach that far
(`Session.supplied_iff`).
-/

namespace Irida.MemoryCache

open Target (Observed Event PagesReach)

/-- The backend supplied the byte for this address, within a page that is in the log. -/
def Supplied (log : List Event) (addr : U64) (byte : Byte) : Prop :=
  ∃ page, .fetched (pageAddr addr) kPageSize page ∈ log ∧ page[(pageOff addr).toNat]? = some byte

section

variable {β : Type*} {ops : Backend β} {c c' : MemoryCache} {o o' : Observed β}
  {replies : List Reply} {addr len : U64} {bytes : Bytes}

/-- The cache holds exactly the pages that were served in the present epoch. -/
theorem Session.cached_iff (h : Session ops c o replies) :
    ∀ (page : U64) (bytes : Bytes),
      c.cur[page]? = some bytes ↔ .fetched page kPageSize bytes ∈ o.log := by
  induction h with
  | start b => exact (Snapshot.setEpoch {} 0).cached_iff
  | @setEpoch c _ _ epoch _ _ => exact (Snapshot.setEpoch c epoch).cached_iff
  | @read c o _ addr len _ ih =>
      exact readLoop_induct
        (P := fun c (o : Observed β) => ∀ (page : U64) (bytes : Bytes),
          c.cur[page]? = some bytes ↔ .fetched page kPageSize bytes ∈ o.log)
        (fun page _ _ _ h => cached_iff_readPage page h) addr len [] c o ih
  | changed fuel addr len _ hchanged ih =>
      exact changedSinceLastEpoch_induct
        (P := fun c (o : Observed β) => ∀ (page : U64) (bytes : Bytes),
          c.cur[page]? = some bytes ↔ .fetched page kPageSize bytes ∈ o.log)
        (fun page _ _ _ h => cached_iff_readPage page h) ih hchanged
  | guest b _ ih => exact ih

/-- **No invented memory.**  Each byte of a successful read was supplied for its address in the
present epoch exactly if the pages that were served reach to the bytes asked for. -/
theorem Session.supplied_iff (h : Session ops c o replies)
    (hread : c.read (fetching ops) addr len o = (.ok bytes, c', o')) :
    (∀ i < bytes.length, ∃ byte, bytes[i]? = some byte ∧
        Supplied o'.log (addr + BitVec.ofNat 64 i) byte) ↔ PagesReach o'.log addr len := by
  have hcached := (h.read addr len).cached_iff
  rw [hread] at hcached
  obtain ⟨bytes', hout, hlen, hbytes⟩ := readLoop_spec hread
  rw [List.nil_append] at hout
  subst hout
  constructor
  · intro hsupplied i hi page hpage
    obtain ⟨byte, -, served, hserved, hbyte⟩ := hsupplied i (hlen ▸ hi)
    -- the page that supplied the byte is the only one at its address
    have hsame := (hcached _ served).mpr hserved
    rw [(hcached _ page).mpr hpage, Option.some.injEq] at hsame
    rw [hsame]
    exact (List.getElem?_eq_some_iff.mp hbyte).1
  · intro hreach i hi
    rw [hlen] at hi
    obtain ⟨page, hpage, hbyte⟩ := hbytes i hi
    have hserved := (hcached _ page).mp hpage
    have hoff := hreach i hi page hserved
    refine ⟨page[(pageOff (addr + BitVec.ofNat 64 i)).toNat], ?_, page, hserved,
      List.getElem?_eq_getElem hoff⟩
    rw [hbyte, List.getD_eq_getElem?_getD, List.getElem?_eq_getElem hoff, Option.getD_some]

end

/-! ## A server that sends one byte of a page -/

open Host Transport

/-- Answers every request with one byte in hex. -/
def oneByteServer : Server :=
  fun _ => [{ acks := ascii "+", payload := ascii "90" }]

/-- The client, with a reply to come. -/
def oneByteClient : GdbClient :=
  { sock := { arrivals := [.bytes 512] } }

/-- The client after the page at 0 was asked for. -/
def oneByteObserved : Observed GdbClient :=
  { state := { sock := { requests := [Proto.frame (ascii "m0,1000")] } }
    log := [.fetched 0 kPageSize [0x90]] }

/-- The cache with what it got for the page at 0. -/
def oneByteCache : MemoryCache :=
  { cur := (∅ : Std.ExtTreeMap U64 Bytes).insert 0 [0x90] }

private theorem oneByte_read (len : U64) (hne : len ≠ 0) (hfit : len.toNat ≤ 4096) :
    MemoryCache.read (fetching (GdbBackend.ops oneByteServer)) 0 len {} { state := oneByteClient } =
      (.ok (pageBytes [0x90] 0 len), oneByteCache, oneByteObserved) := by
  have hread : MemoryCache.readPage (fetching (GdbBackend.ops oneByteServer)) (pageAddr 0) {}
      { state := oneByteClient } = (.ok [0x90], oneByteCache, oneByteObserved) := rfl
  have hoff : (pageOff 0).toNat = 0 := by decide
  rw [MemoryCache.read, readLoop_within hread hne (by omega), List.nil_append]

/-- The byte that was sent is read. -/
theorem supplied_oneByte : Supplied oneByteObserved.log 0 0x90 := by
  have hread := oneByte_read 1 (by decide) (by decide)
  have hreach : PagesReach oneByteObserved.log 0 1 := by
    intro i hi page hpage
    obtain rfl : i = 0 := by simpa using hi
    obtain ⟨-, -, rfl⟩ := Event.fetched.inj (List.mem_singleton.mp hpage)
    decide
  obtain ⟨byte, hbyte, hsupplied⟩ :=
    ((Session.start oneByteClient).supplied_iff hread).mpr hreach 0 (by decide)
  cases hbyte
  exact hsupplied

/-- In general a byte that the backend did not deliver is read as a zero: the second byte of a page
of which one byte was sent. -/
theorem not_supplied :
    ¬ ∀ (ops : Backend GdbClient) (c c' : MemoryCache) (o o' : Observed GdbClient)
      (replies : List Reply) (addr len : U64) (bytes : Bytes), Session ops c o replies →
      c.read (fetching ops) addr len o = (.ok bytes, c', o') →
      ∀ i < bytes.length, ∃ byte, bytes[i]? = some byte ∧
        Supplied o'.log (addr + BitVec.ofNat 64 i) byte := by
  intro h
  obtain ⟨byte, -, page, hpage, hbyte⟩ := h _ _ _ _ _ _ 0 2 _ (.start oneByteClient)
    (oneByte_read 2 (by decide) (by decide)) 1 (by decide)
  obtain ⟨-, -, rfl⟩ := Event.fetched.inj (List.mem_singleton.mp hpage)
  cases hbyte

end Irida.MemoryCache
