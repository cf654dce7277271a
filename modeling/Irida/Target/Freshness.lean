import Irida.Target.Target

/-!
# Freshness of guest memory

Bytes that a read returns should have been fetched from the backend after the
guest last ran.  `observe` puts a log under any backend that records when the
guest runs and which pages are served; a page of the log is fresh if the guest
did not run after it.

The cache is rotated by a run call that succeeds, and only by one.  So the bytes
are fresh if no run call has failed, with the guest having run, since the last
one that succeeded (`readMemory_fresh`), and a read of a page that was cached
before such a failure returns the bytes of before (`readMemory_stale`).
-/

namespace Irida.Target

/-- What the log of a backend records. -/
inductive Event
  | ran
  | fetched (addr len : U64) (bytes : Bytes)
  deriving DecidableEq

/-- The state of a backend under observation, with the newest event first. -/
structure Observed (β : Type*) where
  state : β
  log : List Event := []

/-- The events since the guest last ran. -/
def sinceRun (log : List Event) : List Event :=
  log.takeWhile (· ≠ .ran)

@[simp] theorem sinceRun_ran (log : List Event) : sinceRun (.ran :: log) = [] := by
  simp [sinceRun]

@[simp] theorem sinceRun_fetched (addr len : U64) (bytes : Bytes) (log : List Event) :
    sinceRun (.fetched addr len bytes :: log) = .fetched addr len bytes :: sinceRun log := by
  simp [sinceRun]

section Observe

variable {β : Type*} (ops : Backend β) (contRuns stepRuns : β → Bool)

/-- The operations under observation.  `contRuns` and `stepRuns` say whether a
call lets the guest run, which it may do even if it fails. -/
def observe : Backend (Observed β) where
  cont o := ((ops.cont o.state).1,
    ⟨(ops.cont o.state).2, if contRuns o.state then .ran :: o.log else o.log⟩)
  step o := ((ops.step o.state).1,
    ⟨(ops.step o.state).2, if stepRuns o.state then .ran :: o.log else o.log⟩)
  readRegisters o := ((ops.readRegisters o.state).1, ⟨(ops.readRegisters o.state).2, o.log⟩)
  readMemory addr len o :=
    match ops.readMemory addr len o.state with
    | (.ok bytes, b) => (.ok bytes, ⟨b, .fetched addr len bytes :: o.log⟩)
    | (.error e, b) => (.error e, ⟨b, o.log⟩)

/-- Whether the cache was rotated since the guest last ran: a run call that
succeeds settles the target, and one that fails after the guest ran unsettles it. -/
def settledAfter {α : Type*} (settled runs : Bool) : Result α → Bool
  | .ok _ => true
  | .error _ => settled && !runs

/-- The targets reached by the operations on an attached target, and whether they
are settled. -/
inductive Reached : Target (Observed β) → Bool → Prop
  | attach {b : β} {t : Target (Observed β)} :
      attach (observe ops contRuns stepRuns) { state := b } = .ok t → Reached t true
  | cont {t : Target (Observed β)} {settled : Bool} : Reached t settled →
      Reached (t.cont (observe ops contRuns stepRuns)).2
        (settledAfter settled (contRuns t.backend.state)
          (t.cont (observe ops contRuns stepRuns)).1)
  | step {t : Target (Observed β)} {settled : Bool} : Reached t settled →
      Reached (t.step (observe ops contRuns stepRuns)).2
        (settledAfter settled (stepRuns t.backend.state)
          (t.step (observe ops contRuns stepRuns)).1)
  | readMemory {t : Target (Observed β)} {settled : Bool} (addr len : U64) : Reached t settled →
      Reached (t.readMemory (observe ops contRuns stepRuns) addr len).2 settled
  | memoryChanged {t t' : Target (Observed β)} {settled changed : Bool} (fuel : ℕ)
      (addr len : U64) : Reached t settled →
      t.memoryChanged (observe ops contRuns stepRuns) fuel addr len = some (changed, t') →
      Reached t' settled

end Observe

/-- Each byte of a reply was served by the backend since the guest last ran. -/
def Fresh (log : List Event) (addr len : U64) (bytes : Bytes) : Prop :=
  bytes.length = len.toNat ∧ ∀ i < len.toNat, ∃ page byte,
    .fetched (pageAddr (addr + BitVec.ofNat 64 i)) kPageSize page ∈ sinceRun log ∧
    page[(pageOff (addr + BitVec.ofNat 64 i)).toNat]? = some byte ∧ bytes[i]? = some byte

/-- The pages in a log that a range crosses reach to each of its addresses. -/
def PagesReach (log : List Event) (addr len : U64) : Prop :=
  ∀ i < len.toNat, ∀ page,
    .fetched (pageAddr (addr + BitVec.ofNat 64 i)) kPageSize page ∈ log →
    (pageOff (addr + BitVec.ofNat 64 i)).toNat < page.length

/-- Every cached page was served since the guest last ran. -/
def CacheFresh (c : MemoryCache) (log : List Event) : Prop :=
  ∀ page bytes, c.cur[page]? = some bytes → .fetched page kPageSize bytes ∈ sinceRun log

section

variable {β : Type*} {ops : Backend β} {contRuns stepRuns : β → Bool}

theorem cacheFresh_setEpoch (c : MemoryCache) (epoch : U64) (log : List Event) :
    CacheFresh (c.setEpoch epoch) log := by
  intro page bytes h
  rw [MemoryCache.getElem?_setEpoch] at h
  cases h

theorem observe_readMemory_error {addr len : U64} {o o' : Observed β} {e : String}
    (h : (observe ops contRuns stepRuns).readMemory addr len o = (.error e, o')) :
    ∃ b, ops.readMemory addr len o.state = (.error e, b) ∧ o' = ⟨b, o.log⟩ := by
  unfold observe at h
  rcases hserved : ops.readMemory addr len o.state with ⟨_ | bytes, b⟩ <;>
    simp only [hserved] at h <;> cases h
  exact ⟨b, rfl, rfl⟩

theorem observe_readMemory_ok {addr len : U64} {o o' : Observed β} {bytes : Bytes}
    (h : (observe ops contRuns stepRuns).readMemory addr len o = (.ok bytes, o')) :
    ∃ b, ops.readMemory addr len o.state = (.ok bytes, b) ∧
      o' = ⟨b, .fetched addr len bytes :: o.log⟩ := by
  unfold observe at h
  rcases hserved : ops.readMemory addr len o.state with ⟨_ | _, b⟩ <;>
    simp only [hserved] at h <;> cases h
  exact ⟨b, rfl, rfl⟩

/-- A page read under observation: the page is cached, or it is asked for and served or not. -/
theorem readPage_observe_cases (page : U64) (c : MemoryCache) (o : Observed β) :
    (∃ bytes, c.cur[page]? = some bytes ∧
      MemoryCache.readPage (observe ops contRuns stepRuns) page c o = (.ok bytes, c, o)) ∨
    (c.cur[page]? = none ∧ ∃ e b, ops.readMemory page kPageSize o.state = (.error e, b) ∧
      MemoryCache.readPage (observe ops contRuns stepRuns) page c o =
        (.error e, c, ⟨b, o.log⟩)) ∨
    (c.cur[page]? = none ∧ ∃ bytes b, ops.readMemory page kPageSize o.state = (.ok bytes, b) ∧
      MemoryCache.readPage (observe ops contRuns stepRuns) page c o =
        (.ok bytes, { c with cur := c.cur.insert page bytes },
          ⟨b, .fetched page kPageSize bytes :: o.log⟩)) := by
  rcases @MemoryCache.readPage_cases _ (observe ops contRuns stepRuns) page c o with
    hcached | ⟨hnone, e, o', hasked, hread⟩ | ⟨hnone, bytes, o', hasked, hread⟩
  · exact Or.inl hcached
  · obtain ⟨b, hserved, rfl⟩ := observe_readMemory_error hasked
    exact Or.inr (Or.inl ⟨hnone, e, b, hserved, hread⟩)
  · obtain ⟨b, hserved, rfl⟩ := observe_readMemory_ok hasked
    exact Or.inr (Or.inr ⟨hnone, bytes, b, hserved, hread⟩)

theorem CacheFresh.readPage {page : U64} {c : MemoryCache} {o : Observed β}
    (h : CacheFresh c o.log) :
    CacheFresh (MemoryCache.readPage (observe ops contRuns stepRuns) page c o).2.1
      (MemoryCache.readPage (observe ops contRuns stepRuns) page c o).2.2.log := by
  rcases readPage_observe_cases page c o with ⟨_, -, hread⟩ | ⟨-, _, _, -, hread⟩ |
    ⟨-, fetched, b, -, hread⟩
  · rwa [hread]
  · rwa [hread]
  · rw [hread]
    intro other bytes hother
    rw [sinceRun_fetched]
    simp only [Std.ExtTreeMap.getElem?_insert, Std.compare_eq_iff_eq] at hother
    split at hother
    · next hpage =>
        subst hpage
        cases hother
        exact List.mem_cons_self ..
    · exact List.mem_cons_of_mem _ (h other bytes hother)

theorem CacheFresh.resume {run : Observed β → Result Backend.StopReply × Observed β}
    {runs : β → Bool} (hrun : ∀ o, (run o).2.log = if runs o.state then .ran :: o.log else o.log)
    {t : Target (Observed β)} {settled : Bool}
    (h : settled = true → CacheFresh t.cache t.backend.log) :
    settledAfter settled (runs t.backend.state)
        (t.resume (observe ops contRuns stepRuns) run).1 = true →
      CacheFresh (t.resume (observe ops contRuns stepRuns) run).2.cache
        (t.resume (observe ops contRuns stepRuns) run).2.backend.log := by
  cases hres : t.resume (observe ops contRuns stepRuns) run with
  | mk r t' =>
      intro hsettled
      show CacheFresh t'.cache t'.backend.log
      obtain ⟨hbackend, ⟨_, epoch, -, hcache⟩ | ⟨⟨e, rfl⟩, hcache⟩⟩ := resume_cases hres
      · rw [hcache]
        exact cacheFresh_setEpoch _ _ _
      · -- an error leaves the target settled only if the guest did not run
        rw [settledAfter, Bool.and_eq_true, Bool.not_eq_true'] at hsettled
        have hsame : (run t.backend).2.log = t.backend.log := by
          rw [hrun, hsettled.2]
          rfl
        have hlog : t'.backend.log = t.backend.log := by
          rcases hbackend with hb | hb <;> rw [hb] <;> exact hsame
        rw [hcache, hlog]
        exact h hsettled.1

/-- **The invariant**: the cache of a settled target is fresh. -/
theorem Reached.cacheFresh {t : Target (Observed β)} {settled : Bool}
    (h : Reached ops contRuns stepRuns t settled) :
    settled = true → CacheFresh t.cache t.backend.log := by
  induction h with
  | @attach b t hattach =>
      intro _
      obtain ⟨epoch, hcache⟩ := attach_cache hattach
      rw [hcache]
      exact cacheFresh_setEpoch _ _ _
  | cont _ ih => exact CacheFresh.resume (fun _ => rfl) ih
  | step _ ih => exact CacheFresh.resume (fun _ => rfl) ih
  | readMemory addr len _ ih =>
      intro hsettled
      exact MemoryCache.readLoop_induct (P := fun c (o : Observed β) => CacheFresh c o.log)
        (fun _ _ _ _ h => h.readPage) addr len [] _ _ (ih hsettled)
  | @memoryChanged t t' settled changed fuel addr len _ hchanged ih =>
      intro hsettled
      exact memoryChanged_induct (P := fun c (o : Observed β) => CacheFresh c o.log)
        (fun _ _ _ _ h => h.readPage) (ih hsettled) hchanged

/-- **A settled target serves fresh bytes**, if the pages that the backend served since the guest
last ran reach to the bytes asked for. -/
theorem readMemory_fresh {t t' : Target (Observed β)} {addr len : U64} {bytes : Bytes}
    (h : Reached ops contRuns stepRuns t true)
    (hread : t.readMemory (observe ops contRuns stepRuns) addr len = (.ok bytes, t'))
    (hreach : PagesReach (sinceRun t'.backend.log) addr len) :
    Fresh t'.backend.log addr len bytes := by
  have hfresh := (h.readMemory addr len).cacheFresh rfl
  rw [hread] at hfresh
  obtain ⟨bytes', hout, hlen, hmem⟩ := MemoryCache.readLoop_spec (read_of_readMemory hread)
  rw [List.nil_append] at hout
  subst hout
  refine ⟨hlen, fun i hi => ?_⟩
  obtain ⟨page, hpage, hbyte⟩ := hmem i hi
  -- the page that the byte comes from is cached after the read, hence fresh
  have hserved := hfresh _ page hpage
  have hoff := hreach i hi page hserved
  refine ⟨page, page[(pageOff (addr + BitVec.ofNat 64 i)).toNat], hserved,
    List.getElem?_eq_getElem hoff, ?_⟩
  rw [hbyte, List.getD_eq_getElem?_getD, List.getElem?_eq_getElem hoff, Option.getD_some]

/-- **A failed run call leaves stale bytes.**  If the guest ran and the call fails,
then every page that was cached is served as it was before. -/
theorem readMemory_stale {run : Observed β → Result Backend.StopReply × Observed β}
    (hrun : ∀ o, ∃ rest, (run o).2.log = .ran :: rest) {t t' : Target (Observed β)} {e : String}
    (hfail : t.resume (observe ops contRuns stepRuns) run = (.error e, t')) {addr len : U64}
    {page : Bytes} (hpage : t.cache.cur[pageAddr addr]? = some page) (hlen : len ≠ 0)
    (hfit : (pageOff addr).toNat + len.toNat ≤ 4096) :
    t'.readMemory (observe ops contRuns stepRuns) addr len =
        (.ok (MemoryCache.pageBytes page addr len), t') ∧
      ¬ Fresh t'.backend.log addr len (MemoryCache.pageBytes page addr len) := by
  obtain ⟨hbackend, ⟨_, _, hok, -⟩ | ⟨-, hcache⟩⟩ := resume_cases hfail
  · cases hok
  obtain ⟨rest, hlog⟩ := hrun t.backend
  have hran : t'.backend.log = .ran :: rest := by
    rcases hbackend with hb | hb <;> rw [hb] <;> exact hlog
  constructor
  · rw [Target.readMemory, MemoryCache.read, hcache,
      MemoryCache.readLoop_within (MemoryCache.readPage_cached hpage) hlen hfit, ← hcache,
      List.nil_append]
  · intro hfresh
    -- the guest ran last, so nothing at all was served since
    obtain ⟨_, _, hserved, -⟩ := hfresh.2 0 (BitVec.toNat_pos_of_ne_zero hlen)
    simp [hran] at hserved

end

/-! ## A guest that counts its runs -/

/-- A backend whose memory is filled with the number of times the guest ran, and whose run calls
reply this after they let it run. -/
def countingOps (reply : Result Backend.StopReply) : Backend Byte where
  cont n := (reply, n + 1)
  step n := (reply, n + 1)
  readRegisters n := (.ok [], n)
  readMemory _ len n := (.ok (List.replicate len.toNat n), n)

/-- The backend under observation. -/
abbrev countingObserved (reply : Result Backend.StopReply) : Backend (Observed Byte) :=
  observe (countingOps reply) (fun _ => true) (fun _ => true)

/-- The target that `attach` returns. -/
def countingTarget : Target (Observed Byte) :=
  { backend := { state := 0 }
    cache := MemoryCache.setEpoch {} 1
    epoch := 1
    state := { epoch := 1, registers := {} } }

/-- The first page when the guest has run so often. -/
def countedPage (n : Byte) : Bytes :=
  List.replicate kPageSize.toNat n

/-- A target whose cache is empty, after a byte of the first page was read. -/
def pageRead (t : Target (Observed Byte)) : Target (Observed Byte) :=
  { t with
    backend :=
      { t.backend with
        log := .fetched 0 kPageSize (countedPage t.backend.state) :: t.backend.log }
    cache := { t.cache with
      cur := (∅ : Std.ExtTreeMap U64 Bytes).insert 0 (countedPage t.backend.state) } }

private theorem countingTarget_reached (reply : Result Backend.StopReply) :
    Reached (countingOps reply) (fun _ => true) (fun _ => true) countingTarget true :=
  .attach (b := 0) rfl

/-- With an empty cache the byte is fetched. -/
private theorem counting_readMemory (reply : Result Backend.StopReply) {t : Target (Observed Byte)}
    (hempty : t.cache.cur = ∅) :
    t.readMemory (countingObserved reply) 0 1 = (.ok [t.backend.state], t.pageRead) := by
  have hread : MemoryCache.readPage (countingObserved reply) (pageAddr 0) t.cache t.backend =
      (.ok (countedPage t.backend.state), t.pageRead.cache, t.pageRead.backend) := by
    unfold MemoryCache.readPage
    rw [hempty]
    rfl
  rw [Target.readMemory, MemoryCache.read,
    MemoryCache.readLoop_within hread (by decide) (by decide)]
  rfl

/-- The target that was read from and let run, with success. -/
def countingTargetRun : Target (Observed Byte) :=
  (countingTarget.pageRead.cont (countingObserved (.ok {}))).2

/-- Attach, read a byte, continue, and read the byte again: the byte of after the run is returned,
and it was fetched after the run. -/
theorem readMemory_fresh_counting :
    countingTarget.readMemory (countingObserved (.ok {})) 0 1 =
        (.ok [0], countingTarget.pageRead) ∧
      countingTargetRun.readMemory (countingObserved (.ok {})) 0 1 =
        (.ok [1], countingTargetRun.pageRead) ∧
      Fresh countingTargetRun.pageRead.backend.log 0 1 [1] := by
  have hfirst := counting_readMemory (.ok {}) (show countingTarget.cache.cur = ∅ from rfl)
  have hsecond := counting_readMemory (.ok {}) (show countingTargetRun.cache.cur = ∅ from rfl)
  have hreached := (countingTarget_reached (.ok {})).readMemory 0 1
  rw [hfirst] at hreached
  refine ⟨hfirst, hsecond, readMemory_fresh hreached.cont hsecond fun i hi page hserved => ?_⟩
  obtain rfl : i = 0 := by simpa using hi
  obtain ⟨-, -, rfl⟩ := Event.fetched.inj (List.mem_singleton.mp hserved)
  rw [countedPage, List.length_replicate]
  decide

/-- Attach, read a byte, continue, which times out, and read the byte again: the
byte of before the guest ran is returned. -/
theorem readMemory_not_fresh : ∃ reply t settled bytes,
    Reached (countingOps reply) (fun _ => true) (fun _ => true) t settled ∧
    t.readMemory (observe (countingOps reply) (fun _ => true) (fun _ => true)) 0 1 =
      (.ok bytes, t) ∧
    ¬ Fresh t.backend.log 0 1 bytes := by
  let timeout : Result Backend.StopReply := .error "recv() failed or timed out"
  have hreached := (countingTarget_reached timeout).readMemory 0 1
  rw [counting_readMemory timeout (show countingTarget.cache.cur = ∅ from rfl)] at hreached
  have hrun : ∀ o : Observed Byte,
      ∃ rest, ((countingObserved timeout).cont o).2.log = .ran :: rest :=
    fun o => ⟨o.log, rfl⟩
  have hpage : countingTarget.pageRead.cache.cur[pageAddr 0]? = some (countedPage 0) :=
    Std.ExtTreeMap.getElem?_insert_self
  exact ⟨timeout, _, _, _, .cont hreached, readMemory_stale hrun rfl hpage (by decide) (by decide)⟩

end Irida.Target
