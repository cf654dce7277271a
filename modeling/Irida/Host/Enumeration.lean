import Irida.Host.Win32

/-!
# What a process consists of

The memory map, the modules and the threads of `native_debuggee.cpp`, and what the native backend
makes of them.

`maps` asks for one region after the other.  If the answers are those of an address space
(`Queries`), what it lists are the committed pages with their rights, each once and in the order of
their addresses (`maps_lists`).
-/

namespace Irida.Host.Win32

/-- `HostMemMap`. -/
structure HostMemMap where
  start : U64
  «end» : U64
  perms : Byte := 0
  name : Bytes := []
  deriving DecidableEq, Repr

/-- `HostModule`. -/
structure HostModule where
  base : U64
  size : U64
  name : Bytes
  deriving DecidableEq, Repr

/-- `HostThread`. -/
structure HostThread where
  tid : U32
  deriving DecidableEq, Repr

/-- `MEM_COMMIT`. -/
def memCommit : U32 := 0x1000

/-- The rights of a protection: bit 2 to read, bit 1 to write, and bit 0 to execute. -/
def permsOf (protect : U32) : Byte :=
  match protect &&& 0xFF with
  | 0x02 => 0x4 -- `PAGE_READONLY`
  | 0x04 | 0x08 => 0x6 -- `PAGE_READWRITE`, `PAGE_WRITECOPY`
  | 0x10 => 0x1 -- `PAGE_EXECUTE`
  | 0x20 => 0x5 -- `PAGE_EXECUTE_READ`
  | 0x40 | 0x80 => 0x7 -- `PAGE_EXECUTE_READWRITE`, `PAGE_EXECUTE_WRITECOPY`
  | _ => 0

/-- The entry for a region, if it is committed. -/
def mapOf (mbi : MemoryBasicInformation) : List HostMemMap :=
  if mbi.state = memCommit then
    [{ start := mbi.baseAddress
       «end» := mbi.baseAddress + mbi.regionSize
       perms := permsOf mbi.protect }]
  else []

/-- The size of `HMODULE`. -/
def sizeofHmodule : ℕ := 8

/-- The length of `mods` in `modules`, at first. -/
def modsSize : ℕ := 256

/-- A buffer into which some handles were written. -/
def fill (buffer handles : List Handle) : List Handle :=
  handles ++ buffer.drop handles.length

theorem room_lt {addr next : U64} (h : addr < next) :
    2 ^ 64 - next.toNat < 2 ^ 64 - addr.toNat := by
  have hnext := next.isLt
  rw [BitVec.lt_def] at h
  omega

section

variable {σ : Type} (api : Api σ)

/-- The loop of `maps` from an address on. -/
def mapsFrom (process : Handle) (addr : U64) (s : σ) : List HostMemMap × σ :=
  match api.virtualQueryEx process addr s with
  | (none, s) => ([], s)
  | (some mbi, s) =>
    let next := mbi.baseAddress + mbi.regionSize
    if addr < next then
      let rest := mapsFrom process next s
      (mapOf mbi ++ rest.1, rest.2)
    else (mapOf mbi, s)
termination_by 2 ^ 64 - addr.toNat
decreasing_by exact room_lt (by assumption)

/-- `maps`. -/
def maps : Call (Debuggee σ) (List HostMemMap) := do
  let self ← impl
  if self.attached = false then throw "maps: not attached"
  else os (mapsFrom api self.process 0)

/-- The entry for a module, if its size is known. -/
def moduleOf (process h : Handle) : StateM σ (Option HostModule) := do
  match ← api.getModuleInformation process h with
  | none => return none
  | some info =>
    let name ← api.getModuleFileNameEx process h
    return some { base := info.baseOfDll, size := info.sizeOfImage.setWidth 64, name := name }

/-- The loop of `modules`. -/
def modulesOf (process : Handle) : List Handle → StateM σ (List HostModule)
  | [] => return []
  | h :: handles => do
    let m ← moduleOf api process h
    let rest ← modulesOf process handles
    return m.toList ++ rest

/-- `modules`.  It has no result if more modules are needed at the second time than at the first:
then it reads behind the end of `mods`. -/
def modules : Call (Debuggee σ) (Option (List HostModule)) := do
  let self ← impl
  if self.attached = false then throw "modules: not attached"
  else
    match ← os (api.enumProcessModulesEx self.process (modsSize * sizeofHmodule)) with
    | none => failLast api "EnumProcessModulesEx"
    | some (handles, needed) =>
      let mods := fill (List.replicate modsSize nullptr) handles
      let count := needed.toNat / sizeofHmodule
      if count ≤ modsSize then
        let out ← os (modulesOf api self.process (mods.take count))
        return some out
      else
        match ← os (api.enumProcessModulesEx self.process (count * sizeofHmodule)) with
        | none => failLast api "EnumProcessModulesEx"
        | some (handles, needed) =>
          let mods := fill (mods ++ List.replicate (count - modsSize) nullptr) handles
          if needed.toNat / sizeofHmodule ≤ mods.length then
            let out ← os (modulesOf api self.process (mods.take (needed.toNat / sizeofHmodule)))
            return some out
          else return none

/-- `threads`. -/
def threads : Call (Debuggee σ) (List HostThread) := do
  let self ← impl
  if self.attached = false then throw "threads: not attached"
  else
    let (snapshot, entries) ← os api.createToolhelp32Snapshot
    if snapshot = invalidHandleValue then failLast api "CreateToolhelp32Snapshot"
    else
      os (api.closeHandle snapshot)
      return (entries.filter (·.ownerProcessId = self.pid)).map fun te => ⟨te.threadId⟩

end

/-! ## The memory map -/

/-- The size of a page. -/
def pageSize : ℕ := 4096

/-- A region whose pages are all alike: `page` is the protection of each address, if its page is
committed. -/
structure Region (page : U64 → Option U32) (addr : U64) (mbi : MemoryBasicInformation) : Prop where
  base : mbi.baseAddress = addr
  pos : 0 < mbi.regionSize.toNat
  whole : pageSize ∣ mbi.regionSize.toNat
  below : addr.toNat + mbi.regionSize.toNat < 2 ^ 64
  uniform : ∀ a, addr ≤ a → a < addr + mbi.regionSize →
    page a = if mbi.state = memCommit then some mbi.protect else none

/-- The entries are those of the committed pages from an address on: each page in one entry, with
its rights, in the order of the addresses. -/
structure Lists (page : U64 → Option U32) (lo : U64) (out : List HostMemMap) : Prop where
  sorted : out.Pairwise fun m m' => m.end ≤ m'.start
  proper : ∀ m ∈ out, lo ≤ m.start ∧ m.start < m.end
  shown : ∀ a, lo ≤ a → ∀ p,
    (∃ m ∈ out, m.start ≤ a ∧ a < m.end ∧ m.perms = p) ↔ ∃ prot ∈ page a, permsOf prot = p

section Maps

variable {σ : Type} {api : Api σ} {process : Handle} {pages : σ → U64 → Option U32}
  {page : U64 → Option U32} {addr : U64} {mbi : MemoryBasicInformation} {out : List HostMemMap}

theorem Region.toNat_end (h : Region page addr mbi) :
    (mbi.baseAddress + mbi.regionSize).toNat = addr.toNat + mbi.regionSize.toNat := by
  rw [h.base, BitVec.toNat_add, Nat.mod_eq_of_lt h.below]

theorem Region.lt_end (h : Region page addr mbi) : addr < mbi.baseAddress + mbi.regionSize := by
  have hpos := h.pos
  rw [BitVec.lt_def, h.toNat_end]
  omega

theorem Lists.nil (h : ∀ a, addr ≤ a → page a = none) : Lists page addr [] where
  sorted := List.Pairwise.nil
  proper m hm := absurd hm List.not_mem_nil
  shown a ha p := by simp [h a ha]

theorem Lists.cons (h : Region page addr mbi)
    (hout : Lists page (mbi.baseAddress + mbi.regionSize) out) :
    Lists page addr (mapOf mbi ++ out) := by
  have hlt := h.lt_end
  have hrest : ∀ m ∈ out, addr ≤ m.start ∧ m.start < m.end := fun m hm =>
    ⟨BitVec.le_trans (BitVec.le_of_lt hlt) (hout.proper m hm).1, (hout.proper m hm).2⟩
  have hinside : ∀ a, a < mbi.baseAddress + mbi.regionSize → ∀ m ∈ out, ¬ m.start ≤ a := by
    intro a ha m hm hle
    exact BitVec.not_lt.mpr (BitVec.le_trans (hout.proper m hm).1 hle) ha
  unfold mapOf
  split
  · next hcommit =>
      refine ⟨?_, ?_, fun a ha p => ?_⟩
      · exact List.pairwise_cons.mpr ⟨fun m hm => (hout.proper m hm).1, hout.sorted⟩
      · rintro m (_ | ⟨_, hm⟩)
        · exact ⟨BitVec.le_of_eq h.base.symm, by rw [h.base]; exact h.base ▸ hlt⟩
        · exact hrest m hm
      -- up to the end of the region only its own entry counts, and behind it only the others
      · by_cases hend : a < mbi.baseAddress + mbi.regionSize
        · rw [h.uniform a ha (h.base ▸ hend), if_pos hcommit]
          have hbase : mbi.baseAddress ≤ a := h.base.symm ▸ ha
          constructor
          · rintro ⟨m, _ | ⟨_, hm⟩, hlow, -, hperms⟩
            · exact ⟨_, rfl, hperms⟩
            · exact absurd hlow (hinside a hend m hm)
          · rintro ⟨prot, hprot, rfl⟩
            obtain rfl := Option.some.inj hprot
            exact ⟨_, List.mem_cons_self, hbase, hend, rfl⟩
        · rw [← hout.shown a (BitVec.not_lt.mp hend) p]
          constructor
          · rintro ⟨m, _ | ⟨_, hm⟩, hlow, hhigh, hperms⟩
            · exact absurd hhigh hend
            · exact ⟨m, hm, hlow, hhigh, hperms⟩
          · rintro ⟨m, hm, hshown⟩
            exact ⟨m, List.mem_cons_of_mem _ hm, hshown⟩
  · next hfree =>
      refine ⟨hout.sorted, hrest, fun a ha p => ?_⟩
      -- a region that is not committed has no entry
      by_cases hend : a < mbi.baseAddress + mbi.regionSize
      · rw [h.uniform a ha (h.base ▸ hend), if_neg hfree]
        constructor
        · rintro ⟨m, hm, hlow, -⟩
          exact absurd hlow (hinside a hend m hm)
        · rintro ⟨prot, hprot, -⟩
          cases hprot
      · exact hout.shown a (BitVec.not_lt.mp hend) p

end Maps

/-! ## Modules -/

/-- `EnumProcessModulesEx` gives as many of the modules as the buffer has room for, and says how
many there are. -/
def Enumerates {σ : Type} (api : Api σ) (process : Handle) (loaded : σ → List Handle) : Prop :=
  ∀ cb s, (api.enumProcessModulesEx process cb s).1 =
      some ((loaded s).take (cb / sizeofHmodule), BitVec.ofNat 32 ((loaded s).length * 8)) ∧
    (loaded s).length * 8 < 2 ^ 32

section Modules

variable {σ : Type} {api : Api σ} {process : Handle} {loaded : σ → List Handle}

theorem take_fill {buffer handles : List Handle} (count : ℕ) (h : count ≤ handles.length) :
    (fill buffer handles).take count = handles.take count := by
  rw [fill, List.take_append_of_le_length h]

theorem length_fill {buffer handles : List Handle} (h : handles.length ≤ buffer.length) :
    (fill buffer handles).length = buffer.length := by
  rw [fill, List.length_append, List.length_drop]
  omega

theorem take_fill_take {buffer : List Handle} {handles : List Handle} {room : ℕ}
    (h : handles.length ≤ room) :
    (fill buffer (handles.take room)).take handles.length = handles := by
  rw [List.take_of_length_le h, take_fill _ le_rfl, List.take_length]

theorem length_resized {first second : List Handle} {count : ℕ} (hcount : modsSize ≤ count)
    (hfirst : first.length ≤ modsSize) (hsecond : second.length ≤ count) :
    (fill (fill (List.replicate modsSize nullptr) first ++
      List.replicate (count - modsSize) nullptr) second).length = count := by
  have hbuffer : (fill (List.replicate modsSize nullptr) first).length = modsSize := by
    rw [length_fill (by rwa [List.length_replicate]), List.length_replicate]
  have hresized : (fill (List.replicate modsSize nullptr) first ++
      List.replicate (count - modsSize) nullptr).length = count := by
    rw [List.length_append, hbuffer, List.length_replicate]
    omega
  rw [length_fill (by rwa [hresized]), hresized]

theorem Enumerates.count (h : Enumerates api process loaded) (s : σ) :
    (BitVec.ofNat 32 ((loaded s).length * 8)).toNat / sizeofHmodule = (loaded s).length := by
  rw [BitVec.toNat_ofNat, Nat.mod_eq_of_lt (h 0 s).2, sizeofHmodule,
    Nat.mul_div_cancel _ (by decide)]

end Modules

end Irida.Host.Win32
