import Irida.Target.Target

/-!
# Coherence of the target

The epoch is kept in three places: in `Target`, in the guest state and in the page cache.  They
move together, because `refresh_state` changes none of them before its last call has succeeded.

`record` puts a history under any backend, of the register blocks and the pages that it has served.
The history falls into generations, each of which begins with a register block.  `Coherent` says
that registers, cache and epoch all belong to the newest generation, and it holds in every state
that a target gets into, whether its calls succeed or fail (`Run.coherent`).
-/

namespace Irida.Target

/-! ## Generations of replies -/

/-- What a backend has served. -/
inductive Served
  | registers (block : Bytes)
  | page (addr len : U64) (bytes : Bytes)
  deriving DecidableEq

/-- The reply is to a register read, which a refresh begins with. -/
def Served.IsRegisters : Served → Prop
  | .registers _ => True
  | .page _ _ _ => False

instance : DecidablePred Served.IsRegisters
  | .registers _ => isTrue trivial
  | .page _ _ _ => isFalse id

/-- The state of a backend with what it has served, the newest first. -/
structure Recorded (β : Type*) where
  state : β
  history : List Served := []

/-- What was served since the newest register block. -/
def generation (history : List Served) : List Served :=
  history.takeWhile fun s => ¬ s.IsRegisters

/-- The newest register block. -/
def newestBlock : List Served → Option Bytes
  | [] => none
  | .registers block :: _ => some block
  | .page _ _ _ :: history => newestBlock history

/-- What was served before the newest register block. -/
def beforeGeneration : List Served → List Served
  | [] => []
  | .registers _ :: history => history
  | .page _ _ _ :: history => beforeGeneration history

@[simp] theorem generation_registers (block : Bytes) (history : List Served) :
    generation (.registers block :: history) = [] := by
  simp [generation, Served.IsRegisters]

@[simp] theorem generation_page (addr len : U64) (bytes : Bytes) (history : List Served) :
    generation (.page addr len bytes :: history) = .page addr len bytes :: generation history := by
  simp [generation, Served.IsRegisters]

section

variable {β : Type*} (ops : Backend β)

/-- The operations, with what they serve in the history. -/
def record : Backend (Recorded β) where
  cont r := ((ops.cont r.state).1, ⟨(ops.cont r.state).2, r.history⟩)
  step r := ((ops.step r.state).1, ⟨(ops.step r.state).2, r.history⟩)
  readRegisters r :=
    match ops.readRegisters r.state with
    | (.ok block, b) => (.ok block, ⟨b, .registers block :: r.history⟩)
    | (.error e, b) => (.error e, ⟨b, r.history⟩)
  readMemory addr len r :=
    match ops.readMemory addr len r.state with
    | (.ok bytes, b) => (.ok bytes, ⟨b, .page addr len bytes :: r.history⟩)
    | (.error e, b) => (.error e, ⟨b, r.history⟩)

/-- The number of run calls that returned success, after one more. -/
def successes {α : Type*} (n : ℕ) : Result α → ℕ
  | .ok _ => n + 1
  | .error _ => n

/-- The targets that `attach` and the operations lead to, with the number of run calls that returned
success. -/
inductive Run : Target (Recorded β) → ℕ → Prop
  | attach {b : β} {t : Target (Recorded β)} :
      attach (record ops) { state := b } = .ok t → Run t 0
  | cont {t : Target (Recorded β)} {n : ℕ} : Run t n →
      Run (t.cont (record ops)).2 (successes n (t.cont (record ops)).1)
  | step {t : Target (Recorded β)} {n : ℕ} : Run t n →
      Run (t.step (record ops)).2 (successes n (t.step (record ops)).1)
  | readMemory {t : Target (Recorded β)} {n : ℕ} (addr len : U64) : Run t n →
      Run (t.readMemory (record ops) addr len).2 n
  | memoryChanged {t t' : Target (Recorded β)} {n : ℕ} {changed : Bool} (fuel : ℕ)
      (addr len : U64) : Run t n →
      t.memoryChanged (record ops) fuel addr len = some (changed, t') → Run t' n

end

/-- The cache holds what was served in the newest generation and, for comparison, what was served
in the one before. -/
structure OfGeneration (c : MemoryCache) (history : List Served) : Prop where
  cur_iff : ∀ (page : U64) (bytes : Bytes),
    c.cur[page]? = some bytes ↔ .page page kPageSize bytes ∈ generation history
  prev_iff : ∀ (page : U64) (bytes : Bytes), c.prev[page]? = some bytes ↔
    .page page kPageSize bytes ∈ generation (beforeGeneration history)

/-- All that the target holds stems from the newest refresh, after as many run calls as returned
success. -/
structure Coherent {β : Type*} (t : Target (Recorded β)) (n : ℕ) : Prop where
  epoch : t.epoch = 1 + BitVec.ofNat 64 n
  state_epoch : t.state.epoch = t.epoch
  cache_epoch : t.cache.epoch = t.epoch
  registers : ∃ block, newestBlock t.backend.history = some block ∧
    RegisterSet.decode block = .ok t.state.registers
  cache : OfGeneration t.cache t.backend.history

/-! ## One operation -/

section

variable {β : Type*} {ops : Backend β}

theorem decode_ok (block : Bytes) : ∃ registers, RegisterSet.decode block = .ok registers := by
  unfold RegisterSet.decode
  dsimp only
  split
  · exact ⟨_, rfl⟩
  · exact ⟨_, rfl⟩

theorem record_readMemory {addr len : U64} {r r' : Recorded β} {reply : Result Bytes}
    (h : (record ops).readMemory addr len r = (reply, r')) :
    r'.history =
      match reply with
      | .ok bytes => .page addr len bytes :: r.history
      | .error _ => r.history := by
  unfold record at h
  rcases hserved : ops.readMemory addr len r.state with ⟨_ | bytes, b⟩ <;>
    simp only [hserved] at h <;> obtain ⟨rfl, rfl⟩ := Prod.mk.inj h <;> rfl

theorem OfGeneration.readPage {page : U64} {c : MemoryCache} {r : Recorded β}
    (h : OfGeneration c r.history) :
    OfGeneration (c.readPage (record ops) page r).2.1
        (c.readPage (record ops) page r).2.2.history ∧
      newestBlock (c.readPage (record ops) page r).2.2.history = newestBlock r.history ∧
      (c.readPage (record ops) page r).2.1.epoch = c.epoch := by
  rcases @MemoryCache.readPage_cases _ (record ops) page c r with
    ⟨_, -, hread⟩ | ⟨-, e, r', hserved, hread⟩ | ⟨hnone, fetched, r', hserved, hread⟩ <;> rw [hread]
  · exact ⟨h, rfl, rfl⟩
  · rw [show r'.history = _ from record_readMemory hserved]
    exact ⟨h, rfl, rfl⟩
  · rw [show r'.history = _ from record_readMemory hserved]
    refine ⟨⟨fun other bytes => ?_, h.prev_iff⟩, rfl, rfl⟩
    -- the page that is fetched was not in the generation before
    rw [generation_page, List.mem_cons, Served.page.injEq, ← h.cur_iff]
    simp only [Std.ExtTreeMap.getElem?_insert, Std.compare_eq_iff_eq]
    split
    · next hsame =>
        subst hsame
        rw [hnone]
        simp [eq_comm]
    · next hother => simp [Ne.symm hother]

theorem OfGeneration.setEpoch {c : MemoryCache} {history : List Served}
    (h : OfGeneration c history) (epoch : U64) (block : Bytes) :
    OfGeneration (c.setEpoch epoch) (.registers block :: history) where
  cur_iff page bytes := by
    rw [MemoryCache.getElem?_setEpoch, generation_registers]
    exact iff_of_false (fun hsome => by cases hsome) List.not_mem_nil
  prev_iff := h.cur_iff

/-- The target after a refresh that was answered with a block. -/
def refreshed (t : Target (Recorded β)) (b : β) (block : Bytes) (registers : RegisterSet) :
    Target (Recorded β) :=
  { backend := ⟨b, .registers block :: t.backend.history⟩
    cache := t.cache.setEpoch (t.epoch + 1)
    epoch := t.epoch + 1
    state := { epoch := t.epoch + 1, registers := registers } }

/-- **One refresh**: it begins a generation, or it changes nothing that the target holds. -/
theorem refreshState_record (t : Target (Recorded β)) :
    (∃ block b registers, RegisterSet.decode block = .ok registers ∧
      refreshState (record ops) t = (.ok (), refreshed t b block registers)) ∨
    (∃ e b, refreshState (record ops) t =
      (.error e, { t with backend := ⟨b, t.backend.history⟩ })) := by
  unfold refreshState
  match hcall : ops.readRegisters t.backend.state with
  | (.error e, b) =>
      refine Or.inr ⟨e, b, ?_⟩
      simp [record, hcall]
  | (.ok block, b) =>
      obtain ⟨registers, hdecode⟩ := decode_ok block
      refine Or.inl ⟨block, b, registers, hdecode, ?_⟩
      simp [record, hcall, hdecode, refreshed]

/-- A run call: on success a generation begins, and on an error the target holds what it held
before. -/
theorem resume_record {run : Recorded β → Result Backend.StopReply × Recorded β}
    (hrun : ∀ r, (run r).2.history = r.history) (t : Target (Recorded β)) :
    (∃ reply block b registers, RegisterSet.decode block = .ok registers ∧
      resume (record ops) run t = (.ok reply, refreshed t b block registers)) ∨
    (∃ e b, resume (record ops) run t =
      (.error e, { t with backend := ⟨b, t.backend.history⟩ })) := by
  unfold resume
  have hhistory := hrun t.backend
  match hcall : run t.backend with
  | (.error e, r) =>
      rw [hcall] at hhistory
      obtain ⟨b, history⟩ := r
      obtain rfl : history = t.backend.history := hhistory
      exact Or.inr ⟨e, b, rfl⟩
  | (.ok stop, r) =>
      rw [hcall] at hhistory
      replace hhistory : r.history = t.backend.history := hhistory
      rcases @refreshState_record β ops { t with backend := r } with
        ⟨block, b, registers, hdecode, hrefresh⟩ | ⟨e, b, hrefresh⟩
      · refine Or.inl ⟨toProtoStopReply stop, block, b, registers, hdecode, ?_⟩
        simp only [hrefresh, refreshed, hhistory]
      · refine Or.inr ⟨e, b, ?_⟩
        simp only [hrefresh, hhistory]

theorem coherent_refreshed {t : Target (Recorded β)} {n : ℕ}
    (hcache : OfGeneration t.cache t.backend.history) (hepoch : t.epoch = BitVec.ofNat 64 n) (b : β)
    {block : Bytes} {registers : RegisterSet} (hdecode : RegisterSet.decode block = .ok registers) :
    Coherent (refreshed t b block registers) n where
  epoch := by
    show t.epoch + 1 = 1 + BitVec.ofNat 64 n
    rw [hepoch, add_comm]
  state_epoch := rfl
  cache_epoch := rfl
  registers := ⟨block, rfl, hdecode⟩
  cache := hcache.setEpoch _ block

theorem Coherent.epoch_eq {t : Target (Recorded β)} {n : ℕ} (h : Coherent t n) :
    t.epoch = BitVec.ofNat 64 (n + 1) := by
  rw [h.epoch, Nat.add_comm, BitVec.ofNat_add]
  rfl

/-- A run call that fails leaves the target coherent, with another state of the backend. -/
theorem Coherent.withState {t : Target (Recorded β)} {n : ℕ} (h : Coherent t n) (b : β) :
    Coherent { t with backend := ⟨b, t.backend.history⟩ } n :=
  ⟨h.epoch, h.state_epoch, h.cache_epoch, h.registers, h.cache⟩

theorem Coherent.resume {run : Recorded β → Result Backend.StopReply × Recorded β}
    (hrun : ∀ r, (run r).2.history = r.history) {t : Target (Recorded β)} {n : ℕ}
    (h : Coherent t n) :
    Coherent (t.resume (record ops) run).2 (successes n (t.resume (record ops) run).1) := by
  rcases @resume_record β ops run hrun t with
    ⟨reply, block, b, registers, hdecode, hcall⟩ | ⟨e, b, hcall⟩
  · rw [hcall]
    exact coherent_refreshed h.cache h.epoch_eq b hdecode
  · rw [hcall]
    exact h.withState b

/-- What the page reads of a request keep of the target: it stays coherent. -/
def CacheCoherent (t : Target (Recorded β)) (c : MemoryCache) (r : Recorded β) : Prop :=
  OfGeneration c r.history ∧ newestBlock r.history = newestBlock t.backend.history ∧
    c.epoch = t.cache.epoch

theorem CacheCoherent.readPage {t : Target (Recorded β)} (page : U64) (c : MemoryCache)
    (r : Recorded β) (h : CacheCoherent t c r) :
    CacheCoherent t (c.readPage (record ops) page r).2.1
      (c.readPage (record ops) page r).2.2 := by
  obtain ⟨hcache, hblock, hepoch⟩ := @OfGeneration.readPage β ops page c r h.1
  exact ⟨hcache, hblock.trans h.2.1, hepoch.trans h.2.2⟩

theorem Coherent.read {t t' : Target (Recorded β)} {n : ℕ} (h : Coherent t n)
    (hepoch : t'.epoch = t.epoch) (hstate : t'.state = t.state)
    (hcache : CacheCoherent t t'.cache t'.backend) : Coherent t' n where
  epoch := hepoch.trans h.epoch
  state_epoch := by rw [hstate, hepoch, h.state_epoch]
  cache_epoch := by rw [hcache.2.2, hepoch, h.cache_epoch]
  registers := by
    rw [hcache.2.1, hstate]
    exact h.registers
  cache := hcache.1

/-! ## Every run -/

/-- The parts of the target belong together in every state. -/
theorem Run.coherent_state {t : Target (Recorded β)} {n : ℕ} (h : Run ops t n) : Coherent t n := by
  induction h with
  | @attach b t hattach =>
      have hempty : OfGeneration {} [] := by
        constructor
        · intro page bytes
          simp [generation]
        · intro page bytes
          simp [generation, beforeGeneration]
      unfold Target.attach at hattach
      rcases @refreshState_record β ops { backend := { state := b } } with
        ⟨block, b', registers, hdecode, hrefresh⟩ | ⟨e, b', hrefresh⟩
      · rw [hrefresh] at hattach
        cases hattach
        exact coherent_refreshed hempty rfl b' hdecode
      · rw [hrefresh] at hattach
        cases hattach
  | cont _ ih => exact ih.resume fun _ => rfl
  | step _ ih => exact ih.resume fun _ => rfl
  | @readMemory t n addr len _ ih =>
      refine ih.read rfl rfl ?_
      exact MemoryCache.readLoop_induct (P := CacheCoherent t)
        (fun page c r _ h => h.readPage page c r) addr len [] _ _ ⟨ih.cache, rfl, rfl⟩
  | @memoryChanged t t' n changed fuel addr len _ hchanged ih =>
      have hcache := memoryChanged_induct (P := CacheCoherent t)
        (fun page c r _ h => h.readPage page c r) ⟨ih.cache, rfl, rfl⟩ hchanged
      unfold Target.memoryChanged at hchanged
      split at hchanged
      · cases hchanged
      · cases hchanged
        exact ih.read rfl rfl hcache

/-- **Coherence of the target**: in every state the epochs agree, the registers are those of the
newest refresh and the cache holds what was served since then; the epoch is one more than the number
of run calls that returned success; and a run call that fails changes nothing that the target
holds. -/
theorem Run.coherent {t : Target (Recorded β)} {n : ℕ} (h : Run ops t n) :
    Coherent t n ∧ ∀ reply t',
      t.cont (record ops) = (reply, t') ∨ t.step (record ops) = (reply, t') →
      (reply.isOk = true → t'.epoch = t.epoch + 1 ∧ Coherent t' (n + 1)) ∧
      (reply.isOk = false → t'.epoch = t.epoch ∧ t'.state = t.state ∧ t'.cache = t.cache ∧
        Coherent t' n) := by
  have hcoherent := h.coherent_state
  refine ⟨hcoherent, fun reply t' hcall => ?_⟩
  obtain ⟨run, hrun, hcall⟩ : ∃ run : Recorded β → Result Backend.StopReply × Recorded β,
      (∀ r, (run r).2.history = r.history) ∧ t.resume (record ops) run = (reply, t') := by
    rcases hcall with hcall | hcall
    · exact ⟨_, fun _ => rfl, hcall⟩
    · exact ⟨_, fun _ => rfl, hcall⟩
  rcases @resume_record β ops run hrun t with
    ⟨stop, block, b, registers, hdecode, hresume⟩ | ⟨e, b, hresume⟩
  · rw [hresume] at hcall
    cases hcall
    refine ⟨fun _ => ⟨rfl, ?_⟩, (nomatch ·)⟩
    exact coherent_refreshed hcoherent.cache hcoherent.epoch_eq b hdecode
  · rw [hresume] at hcall
    cases hcall
    exact ⟨(nomatch ·), fun _ => ⟨rfl, rfl, rfl, hcoherent.withState b⟩⟩

end

/-! ## A run call that times out after one that stopped -/

/-- A backend with the number of run calls made as its one register.  The second of them fails. -/
def onceOps : Backend Byte where
  cont n := (if n = 0 then .ok { kind := .breakpoint } else .error "recv() failed or timed out",
    n + 1)
  step n := (.error "recv() failed or timed out", n + 1)
  readRegisters n := (.ok [n], n)
  readMemory _ len n := (.ok (List.replicate len.toNat n), n)

/-- The target that `attach` returns. -/
def onceTarget : Target (Recorded Byte) :=
  refreshed { backend := { state := 0 } } 0 [0] ⟨[("rax", 0)]⟩

/-- The target after a run call that stopped and one that failed: the register is that of the
stop. -/
theorem coherent_once :
    Coherent ((onceTarget.cont (record onceOps)).2.cont (record onceOps)).2 1 ∧
      ((onceTarget.cont (record onceOps)).2.cont (record onceOps)).2.state.registers =
        ⟨[("rax", 1)]⟩ := by
  have hattach : Run onceOps onceTarget 0 := .attach (b := 0) (by rfl)
  have hstopped : Run onceOps (onceTarget.cont (record onceOps)).2 1 := hattach.cont
  have hfailed : Run onceOps ((onceTarget.cont (record onceOps)).2.cont (record onceOps)).2 1 :=
    hstopped.cont
  exact ⟨hfailed.coherent.1, by rfl⟩

end Irida.Target
