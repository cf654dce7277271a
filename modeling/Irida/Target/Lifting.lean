import Irida.Lib.Simulation
import Irida.Target.Target

/-!
# Targets over backends that agree

A target only knows its backend through the four operations of the interface.  So if one backend
simulates another, until something is lost, then a target over the first simulates a target over the
second: the same replies, the same registers, the same pages in the cache and the same epoch
(`session_agrees`).  Each layer is compared with itself over the two backends, from the page read
up.
-/

namespace Irida.Target

open Simulation

/-! ## Sessions -/

/-- The operations that a user of a target calls. -/
inductive Call
  | cont
  | step
  | readMemory (addr len : U64)
  | memoryChanged (addr len : U64)
  deriving DecidableEq, Repr

/-- What they return, and what the target shows after them. -/
inductive Outcome
  | stop (r : Result Proto.StopReply)
  | bytes (r : Result Bytes)
  | changed (changed : Bool)
  deriving DecidableEq, Repr

section

variable {β : Type*} (ops : Backend β) (fuel : ℕ)

/-- One call.  A comparison may not return. -/
def call : Call → Target β → Option (Outcome × Target β)
  | .cont, t => some (.stop (t.cont ops).1, (t.cont ops).2)
  | .step, t => some (.stop (t.step ops).1, (t.step ops).2)
  | .readMemory addr len, t =>
    some (.bytes (t.readMemory ops addr len).1, (t.readMemory ops addr len).2)
  | .memoryChanged addr len, t =>
    (t.memoryChanged ops fuel addr len).map fun (changed, t) => (.changed changed, t)

/-- A session with an attached target: what its calls return, and the target after them. -/
def session (calls : List Call) (t : Target β) : List Outcome × Target β :=
  run (call ops fuel) calls t

end

/-! ## The link between two targets -/

variable {α β : Type*}

/-- The four operations of a backend simulate those of another, and a read in which something is
lost fails. -/
structure BackendSimulates (L : Link α β) (ops : Backend α) (ops' : Backend β) : Prop where
  cont : L.Simulates ops.cont ops'.cont
  step : L.Simulates ops.step ops'.step
  readRegisters : L.Simulates ops.readRegisters ops'.readRegisters
  readMemory : ∀ addr len, L.Simulates (ops.readMemory addr len) (ops'.readMemory addr len)
  fails : ∀ {addr len a a' b r}, L.rel a b → ops.readMemory addr len a = (r, a') → L.lost a' →
    ∃ e, r = .error e

/-- All but the backends is the same. -/
structure Alike (L : Link α β) (t : Target α) (t' : Target β) : Prop where
  backend : L.rel t.backend t'.backend
  cache : t.cache = t'.cache
  epoch : t.epoch = t'.epoch
  state : t.state = t'.state

/-- The link that a link of the backends makes. -/
def link (L : Link α β) : Link (Target α) (Target β) where
  lost t := L.lost t.backend
  rel := Alike L
  kept h := L.kept h.backend

variable {L : Link α β} {ops : Backend α} {ops' : Backend β}

/-! ## The cache -/

section Cache

/-- The cache, with the backend behind it. -/
abbrev cached (L : Link α β) : Link (MemoryCache × α) (MemoryCache × β) :=
  L.beside MemoryCache

theorem readPage_simulates (h : BackendSimulates L ops ops') (page : U64) :
    (cached L).Simulates (fun p => p.1.readPage ops page p.2)
      (fun p => p.1.readPage ops' page p.2) where
  lost := by
    rintro ⟨c, a⟩ hgone
    rcases @MemoryCache.readPage_cases _ ops page c a with ⟨_, -, hread⟩ |
      ⟨-, _, _, hfetch, hread⟩ | ⟨-, _, _, hfetch, hread⟩ <;> dsimp only <;> rw [hread]
    · exact hgone
    · exact (h.readMemory page kPageSize).lost_of_eq hgone hfetch
    · exact (h.readMemory page kPageSize).lost_of_eq hgone hfetch
  agrees := by
    rintro ⟨c, a⟩ ⟨c', b⟩ ⟨rfl, hrel⟩
    rcases @MemoryCache.readPage_cases _ ops page c a with ⟨_, hcached, hread⟩ |
      ⟨hnone, _, _, hfetch, hread⟩ | ⟨hnone, _, _, hfetch, hread⟩ <;> dsimp only <;> rw [hread]
    · refine Or.inr ?_
      simp only [MemoryCache.readPage, hcached]
      exact ⟨trivial, rfl, hrel⟩
    · refine ((h.readMemory page kPageSize).follows hrel hfetch).imp_right ?_
      rintro ⟨b', hfetch', hrel'⟩
      simp [MemoryCache.readPage, hnone, hfetch', Link.beside, hrel']
    · refine ((h.readMemory page kPageSize).follows hrel hfetch).imp_right ?_
      rintro ⟨b', hfetch', hrel'⟩
      simp [MemoryCache.readPage, hnone, hfetch', Link.beside, hrel']

theorem readPage_follows (h : BackendSimulates L ops ops') {page : U64} {c c' : MemoryCache}
    {a a' : α} {b : β} {r : Result Bytes} (hrel : L.rel a b)
    (hpage : c.readPage ops page a = (r, c', a')) :
    L.lost a' ∨ ∃ b', c.readPage ops' page b = (r, c', b') ∧ L.rel a' b' := by
  have hfollows := (readPage_simulates h page).follows (a := (c, a)) (b := (c, b)) ⟨rfl, hrel⟩ hpage
  refine hfollows.imp_right ?_
  rintro ⟨⟨c'', b'⟩, hpage', rfl, hrel'⟩
  exact ⟨b', hpage', hrel'⟩

theorem readPage_fails (h : BackendSimulates L ops ops') {page : U64} {c c' : MemoryCache}
    {a a' : α} {b : β} {r : Result Bytes} (hrel : L.rel a b)
    (hpage : c.readPage ops page a = (r, c', a')) (hgone : L.lost a') : ∃ e, r = .error e := by
  rcases @MemoryCache.readPage_cases _ ops page c a with ⟨_, -, hread⟩ |
    ⟨-, e, _, -, hread⟩ | ⟨-, _, _, hfetch, hread⟩
  · rw [hread] at hpage
    cases hpage
    exact absurd hgone (L.kept hrel)
  · rw [hread] at hpage
    cases hpage
    exact ⟨e, rfl⟩
  · rw [hread] at hpage
    cases hpage
    exact h.fails hrel hfetch hgone

theorem readPage_lost (h : BackendSimulates L ops ops') (page : U64) (c : MemoryCache) (a : α)
    (hgone : L.lost a) : L.lost (c.readPage ops page a).2.2 :=
  (readPage_simulates h page).lost (c, a) hgone

theorem readLoop_lost (h : BackendSimulates L ops ops') (pos remaining : U64) (out : Bytes)
    (c : MemoryCache) {a : α} (hgone : L.lost a) :
    L.lost (MemoryCache.readLoop ops pos remaining out c a).2.2 :=
  MemoryCache.readLoop_induct (P := fun _ a => L.lost a)
    (fun page c a _ => readPage_lost h page c a) pos remaining out c a hgone

/-- The pages of a request are read one after the other, from the same cache. -/
theorem read_simulates (h : BackendSimulates L ops ops') (addr len : U64) :
    (cached L).Simulates (fun p => p.1.read ops addr len p.2)
      (fun p => p.1.read ops' addr len p.2) where
  lost p hgone := readLoop_lost h addr len [] p.1 hgone
  agrees := by
    rintro ⟨c, a⟩ ⟨c', b⟩ ⟨rfl, hrel⟩
    dsimp only [MemoryCache.read]
    generalize ([] : Bytes) = out
    fun_induction MemoryCache.readLoop ops addr len out c a generalizing b with
    | case1 pos out c a =>
        rw [MemoryCache.readLoop, dif_pos rfl]
        exact Or.inr ⟨rfl, rfl, hrel⟩
    | case2 pos remaining out c a hrem e c' a' hpage =>
        rw [MemoryCache.readLoop, dif_neg hrem]
        rcases readPage_follows h hrel hpage with hgone | ⟨b', hpage', hrel'⟩
        · exact Or.inl hgone
        · rw [hpage']
          exact Or.inr ⟨rfl, rfl, hrel'⟩
    | case3 pos remaining out c a hrem page c' a' hpage ih =>
        rw [MemoryCache.readLoop.eq_def ops', dif_neg hrem]
        rcases readPage_follows h hrel hpage with hgone | ⟨b', hpage', hrel'⟩
        · exact Or.inl (readLoop_lost h _ _ _ _ hgone)
        · rw [hpage']
          exact ih b' hrel'

/-- The pages of a comparison are read one after the other, up to the first difference. -/
theorem changedLoop_agrees (h : BackendSimulates L ops ops') (lastPage : U64) (fuel : ℕ)
    {page : U64} (hpage : pageAddr page = page) (c : MemoryCache) {a : α} {b : β}
    (hrel : L.rel a b) : (cached L).AgreesIfAny (MemoryCache.changedLoop ops lastPage fuel page c a)
      (MemoryCache.changedLoop ops' lastPage fuel page c b) := by
  induction fuel generalizing page c a b with
  | zero => trivial
  | succ fuel ih =>
      rw [MemoryCache.changedLoop, MemoryCache.changedLoop]
      by_cases hle : page ≤ lastPage
      case neg =>
        rw [if_neg hle, if_neg hle]
        exact Or.inr ⟨rfl, rfl, hrel⟩
      rw [if_pos hle, if_pos hle]
      rcases hread : c.readPage ops page a with ⟨r, c', a'⟩
      rcases readPage_follows h hrel hread with hgone | ⟨b', hread', hrel'⟩
      · obtain ⟨e, rfl⟩ := readPage_fails h hrel hread hgone
        exact Link.agreesIfAny_of_lost (L := cached L) (x := (false, c', a')) hgone _
      · rw [hread']
        cases r with
        | error _ => exact Or.inr ⟨rfl, rfl, hrel'⟩
        | ok curPage =>
            dsimp only
            cases hprev : c'.prev[page]? with
            | none => exact ih (pageAddr_add_kPageSize hpage) c' hrel'
            | some prevPage =>
                dsimp only
                split
                · exact Or.inr ⟨rfl, rfl, hrel'⟩
                · exact ih (pageAddr_add_kPageSize hpage) c' hrel'

theorem changed_simulates (h : BackendSimulates L ops ops') (fuel : ℕ) (addr len : U64) :
    (cached L).SimulatesIfAny (fun p => p.1.changedSinceLastEpoch ops fuel addr len p.2)
      (fun p => p.1.changedSinceLastEpoch ops' fuel addr len p.2) where
  lost := by
    rintro ⟨c, a⟩ hgone ⟨changed, c', a'⟩ hrun
    exact MemoryCache.changedSinceLastEpoch_induct (P := fun _ a => L.lost a)
      (fun page c a _ => readPage_lost h page c a) hgone hrun
  agrees := by
    rintro ⟨c, a⟩ ⟨c', b⟩ ⟨rfl, hrel⟩
    dsimp only [MemoryCache.changedSinceLastEpoch]
    by_cases hlen : len = 0
    · rw [if_pos hlen, if_pos hlen]
      exact Or.inr ⟨rfl, rfl, hrel⟩
    · rw [if_neg hlen, if_neg hlen]
      exact changedLoop_agrees h _ fuel (pageAddr_pageAddr addr) c hrel

end Cache

/-! ## The calls -/

theorem refreshState_backend (ops : Backend α) (t : Target α) :
    (refreshState ops t).2.backend = (ops.readRegisters t.backend).2 := by
  rcases hrefresh : refreshState ops t with ⟨r, t'⟩
  exact (refreshState_cases hrefresh).1

theorem resume_lost (h : BackendSimulates L ops ops') {go : α → Result Backend.StopReply × α}
    {t : Target α} (hgone : L.lost (go t.backend).2) : L.lost (resume ops go t).2.backend := by
  rcases hresume : resume ops go t with ⟨r, t'⟩
  rcases (resume_cases hresume).1 with hb | hb <;> dsimp only <;> rw [hb]
  · exact hgone
  · exact h.readRegisters.lost _ hgone

theorem refreshState_simulates (h : BackendSimulates L ops ops') :
    (link L).Simulates (refreshState ops) (refreshState ops') where
  lost t hgone := by
    show L.lost (refreshState ops t).2.backend
    rw [refreshState_backend]
    exact h.readRegisters.lost _ hgone
  agrees t t' hrel := by
    rcases hread : ops.readRegisters t.backend with ⟨r, a⟩
    rcases h.readRegisters.follows hrel.backend hread with hgone | ⟨b, hread', hrel'⟩
    · refine Or.inl ?_
      show L.lost (refreshState ops t).2.backend
      rwa [refreshState_backend, hread]
    refine Or.inr ?_
    unfold refreshState
    rw [hread, hread', ← hrel.cache, ← hrel.epoch]
    cases r with
    | error e => exact ⟨rfl, hrel', rfl, rfl, hrel.state⟩
    | ok block =>
        dsimp only
        cases RegisterSet.decode block with
        | error e => exact ⟨rfl, hrel', rfl, rfl, hrel.state⟩
        | ok registers => exact ⟨rfl, hrel', rfl, rfl, rfl⟩

theorem resume_simulates (h : BackendSimulates L ops ops')
    {go : α → Result Backend.StopReply × α} {go' : β → Result Backend.StopReply × β}
    (hgo : L.Simulates go go') : (link L).Simulates (resume ops go) (resume ops' go') where
  lost t hgone := resume_lost h (hgo.lost _ hgone)
  agrees t t' hrel := by
    rcases hran : go t.backend with ⟨r, a⟩
    rcases hgo.follows hrel.backend hran with hgone | ⟨b, hran', hrel'⟩
    · exact Or.inl (resume_lost h (by rwa [hran]))
    unfold resume
    rw [hran, hran']
    cases r with
    | error e => exact Or.inr ⟨rfl, hrel', hrel.cache, hrel.epoch, hrel.state⟩
    | ok stop =>
        have hnext : Alike L { t with backend := a } { t' with backend := b } :=
          ⟨hrel', hrel.cache, hrel.epoch, hrel.state⟩
        dsimp only
        rcases hrefresh : refreshState ops { t with backend := a } with ⟨r, t₁⟩
        rcases (refreshState_simulates h).follows hnext hrefresh with
          hgone | ⟨t₂, hrefresh', halike⟩
        · cases r <;> exact Or.inl hgone
        · rw [hrefresh']
          cases r <;> exact Or.inr ⟨rfl, halike⟩

theorem readMemory_simulates (h : BackendSimulates L ops ops') (addr len : U64) :
    (link L).Simulates (Target.readMemory ops addr len) (Target.readMemory ops' addr len) where
  lost t hgone := (read_simulates h addr len).lost (t.cache, t.backend) hgone
  agrees t t' hrel := by
    have hagrees := (read_simulates h addr len).agrees (t.cache, t.backend) (t'.cache, t'.backend)
      ⟨hrel.cache, hrel.backend⟩
    exact hagrees.imp_right fun ⟨heq, hcache, hrel'⟩ =>
      ⟨heq, hrel', hcache, hrel.epoch, hrel.state⟩

theorem memoryChanged_simulates (h : BackendSimulates L ops ops') (fuel : ℕ) (addr len : U64) :
    (link L).SimulatesIfAny (Target.memoryChanged ops fuel addr len)
      (Target.memoryChanged ops' fuel addr len) where
  lost t hgone x hx := by
    unfold Target.memoryChanged at hx
    split at hx
    · cases hx
    · next hrun =>
        cases hx
        exact (changed_simulates h fuel addr len).lost (t.cache, t.backend) hgone _ hrun
  agrees t t' hrel := by
    have hagrees := (changed_simulates h fuel addr len).agrees (t.cache, t.backend)
      (t'.cache, t'.backend) ⟨hrel.cache, hrel.backend⟩
    unfold Target.memoryChanged
    dsimp only at hagrees
    rcases hrun : t.cache.changedSinceLastEpoch ops fuel addr len t.backend with
      _ | ⟨changed, c, a⟩ <;>
      rcases hrun' : t'.cache.changedSinceLastEpoch ops' fuel addr len t'.backend with
        _ | ⟨changed', c', b⟩ <;> rw [hrun, hrun'] at hagrees
    · trivial
    · exact hagrees
    · exact hagrees
    · exact hagrees.imp_right fun ⟨heq, hcache, hrel'⟩ =>
        ⟨heq, hrel', hcache, hrel.epoch, hrel.state⟩

theorem call_simulates (h : BackendSimulates L ops ops') (fuel : ℕ) (c : Call) :
    (link L).SimulatesIfAny (call ops fuel c) (call ops' fuel c) := by
  cases c with
  | cont => exact ((resume_simulates h h.cont).map Outcome.stop).ifAny
  | step => exact ((resume_simulates h h.step).map Outcome.stop).ifAny
  | readMemory addr len => exact ((readMemory_simulates h addr len).map Outcome.bytes).ifAny
  | memoryChanged addr len =>
      have hchanged := memoryChanged_simulates h fuel addr len
      constructor
      · intro t hgone x hx
        obtain ⟨⟨changed, t₁⟩, hrun, rfl⟩ := Option.map_eq_some_iff.mp hx
        exact hchanged.lost t hgone _ hrun
      · intro t t' hrel
        have hagrees := hchanged.agrees t t' hrel
        dsimp only [call]
        rcases hrun : t.memoryChanged ops fuel addr len with _ | ⟨changed, t₁⟩ <;>
          rcases hrun' : t'.memoryChanged ops' fuel addr len with _ | ⟨changed', t₂⟩ <;>
          rw [hrun, hrun'] at hagrees
        · trivial
        · exact hagrees
        · exact hagrees
        · exact hagrees.imp_right fun ⟨heq, hrel'⟩ => ⟨congrArg Outcome.changed heq, hrel'⟩

/-- **Sessions agree**: whatever is called, in whatever order, until something is lost. -/
theorem session_agrees (h : BackendSimulates L ops ops') (fuel : ℕ) (calls : List Call) :
    (link L).Simulates (session ops fuel calls) (session ops' fuel calls) :=
  Link.run_agrees (call_simulates h fuel) calls

/-- A target that attaches does so over the other backend as well. -/
theorem attach_follows (h : BackendSimulates L ops ops') {a : α} {b : β} (hrel : L.rel a b)
    {t : Target α} (hattach : attach ops a = .ok t) :
    L.lost t.backend ∨ ∃ t', attach ops' b = .ok t' ∧ Alike L t t' := by
  have hstart : Alike L { backend := a } { backend := b } := ⟨hrel, rfl, rfl, rfl⟩
  unfold attach at hattach ⊢
  rcases hrefresh : refreshState ops { backend := a } with ⟨r, t₁⟩
  rw [hrefresh] at hattach
  cases r with
  | error e => cases hattach
  | ok u =>
      cases hattach
      refine ((refreshState_simulates h).follows hstart hrefresh).imp_right ?_
      rintro ⟨t', hrefresh', halike⟩
      rw [hrefresh']
      exact ⟨t', rfl, halike⟩

end Irida.Target
