import Mathlib.Logic.Relation
import Mathlib.Data.List.Basic

/-!
# The debug controller

`DebugController` owns the session that the panels show.  `runAnalysis` starts a
worker thread that calls `irida_analyze` on the session pointer it captured;
`setSession` and the destructor free the session without a look at the workers.

A worker is started, executes `irida_analyze`, returns from it, and is deleted
by the `finished` handler, which runs on the UI thread and only while the
controller lives.  Sessions are numbered in the order of their creation, since
a freed one does not come back.

## The lifetime of an analysed session

`Safe` says that no worker executes on a freed session.  It holds in every run
whose swaps and destructions find no unfinished worker on the current session
(`executing_alive`); each other swap or destruction leaves a worker behind that
will execute on a freed session (`release_unsafe`).
-/

namespace Irida.Session

abbrev SessionId := ℕ

/-- How a session was created, so it is destroyed with the matching ABI call. -/
inductive SessionKind
  | mock
  | static
  | native
  deriving DecidableEq

/-- A session that was freed, and the kind whose destructor was called. -/
abbrev Destroyed := SessionId × SessionKind

structure DebugController where
  session : Option SessionId
  kind : SessionKind := .mock
  analyzing : Bool := false
  deriving DecidableEq

namespace DebugController

variable (c : DebugController)

def destroySession : DebugController × List Destroyed :=
  match c.session with
  | none => (c, [])
  | some s => ({ c with session := none }, [(s, c.kind)])

def setSession (s : Option SessionId) (kind : SessionKind) : DebugController × List Destroyed :=
  ({ c.destroySession.1 with session := s, kind := kind }, c.destroySession.2)

/-- The session is the one that the new worker captures. -/
def runAnalysis : DebugController × Option SessionId :=
  match c.analyzing, c.session with
  | false, some s => ({ c with analyzing := true }, some s)
  | _, _ => (c, none)

/-- The handler of `QThread::finished`. -/
def analysisDone : DebugController :=
  { c with analyzing := false }

theorem destroySession_snd : c.destroySession.2.map Prod.fst = c.session.toList := by
  unfold destroySession
  cases c.session <;> rfl

theorem setSession_snd (s : Option SessionId) (kind : SessionKind) :
    (c.setSession s kind).2.map Prod.fst = c.session.toList :=
  c.destroySession_snd

/-- A worker is started only while none is thought to run, on the current session. -/
theorem runAnalysis_some {s : SessionId} (h : c.runAnalysis.2 = some s) :
    c.analyzing = false ∧ c.session = some s ∧
      c.runAnalysis.1 = { c with analyzing := true } := by
  unfold runAnalysis at h ⊢
  split at h
  case h_1 t hbusy hsession => exact ⟨hbusy, hsession.trans h, by simp [hsession]⟩
  case h_2 => cases h

theorem runAnalysis_none (h : c.runAnalysis.2 = none) : c.runAnalysis.1 = c := by
  unfold runAnalysis at h ⊢
  split at h
  case h_1 => cases h
  case h_2 hno => simp

end DebugController

/-! ## Workers and events -/

/-- Where a worker thread is. -/
inductive Phase
  | started
  | executing
  | returned
  | deleted
  deriving DecidableEq

/-- Started, and not yet back from `irida_analyze`. -/
def Phase.unfinished : Phase → Bool
  | .started | .executing => true
  | .returned | .deleted => false

structure Worker where
  session : SessionId
  phase : Phase := .started
  deriving DecidableEq

/-- The controller, once it is destroyed `none`, with the workers it started, the
sessions that were freed, and the number of the next session. -/
structure World where
  controller : Option DebugController
  workers : List Worker := []
  destroyed : List Destroyed := []
  next : SessionId := 1
  deriving DecidableEq

/-- What can happen next: calls on the UI thread, and the steps of a worker. -/
inductive Event
  | runAnalysis
  /-- with the session created for the call, as `attachToProcess` does, or with none -/
  | setSession (created : Bool) (kind : SessionKind)
  | destroyController
  | workerBegins (i : ℕ)
  | workerReturns (i : ℕ)
  | workerFinished (i : ℕ)
  deriving DecidableEq

namespace World

variable (w : World)

/-- Move worker `i` on, if it is in the given phase. -/
def advance (i : ℕ) (before after : Phase) : Option World :=
  match w.workers[i]? with
  | some worker =>
    if worker.phase = before then
      some { w with workers := w.workers.set i { worker with phase := after } }
    else none
  | none => none

/-- One event.  It is `none` if the event cannot happen. -/
def step : Event → Option World
  | .runAnalysis =>
    w.controller.map fun c => { w with
      controller := some c.runAnalysis.1
      workers := w.workers ++ c.runAnalysis.2.toList.map fun s => { session := s } }
  | .setSession created kind =>
    w.controller.map fun c =>
      let s := if created then some w.next else none
      { w with
        controller := some (c.setSession s kind).1
        destroyed := w.destroyed ++ (c.setSession s kind).2
        next := if created then w.next + 1 else w.next }
  | .destroyController =>
    w.controller.map fun c => { w with
      controller := none
      destroyed := w.destroyed ++ c.destroySession.2 }
  | .workerBegins i => w.advance i .started .executing
  | .workerReturns i => w.advance i .executing .returned
  | .workerFinished i =>
    -- the connection to the handler goes with its receiver, the controller
    match w.controller with
    | some c =>
      (w.advance i .returned .deleted).map fun w' => { w' with controller := some c.analysisDone }
    | none => none

/-- The window opens on a session of this kind; session `0` is the first. -/
def opened (session : Bool) (kind : SessionKind) : World :=
  { controller := some { session := if session then some 0 else none, kind := kind } }

/-- No worker executes `irida_analyze` on a freed session. -/
def Safe : Prop :=
  ∀ worker ∈ w.workers, worker.phase = .executing →
    ∀ d ∈ w.destroyed, d.1 ≠ worker.session

instance : Decidable w.Safe :=
  inferInstanceAs (Decidable (∀ worker ∈ w.workers, _ → ∀ d ∈ w.destroyed, _))

/-- A worker that has not returned holds the current session. -/
def Held : Prop :=
  ∃ c ∈ w.controller, ∃ worker ∈ w.workers,
    worker.phase.unfinished = true ∧ c.session = some worker.session

instance : Decidable w.Held :=
  decidable_of_iff (∃ c ∈ w.controller.toList, ∃ worker ∈ w.workers,
      worker.phase.unfinished = true ∧ c.session = some worker.session)
    (by simp [Held])

/-- The events that free a session come with no unfinished worker on it. -/
def Allows : Event → Prop
  | .setSession _ _ | .destroyController => ¬ w.Held
  | _ => True

end World

/-- A step by some event. -/
def Step (w w' : World) : Prop :=
  ∃ e, w.step e = some w'

/-- A step by an event that the state allows. -/
def AllowedStep (w w' : World) : Prop :=
  ∃ e, w.Allows e ∧ w.step e = some w'

/-- What events reach from a window just opened. -/
def Reachable (w : World) : Prop :=
  ∃ session kind, Relation.ReflTransGen Step (.opened session kind) w

/-- What allowed events reach from a window just opened. -/
def AllowedReachable (w : World) : Prop :=
  ∃ session kind, Relation.ReflTransGen AllowedStep (.opened session kind) w

/-! ## What one event does -/

section Cases

variable {w w' : World} {i : ℕ} {before after : Phase}

theorem World.advance_eq_some_iff :
    w.advance i before after = some w' ↔
      ∃ s, w.workers[i]? = some ⟨s, before⟩ ∧
        w' = { w with workers := w.workers.set i ⟨s, after⟩ } := by
  unfold World.advance
  constructor
  · intro h
    split at h
    · rename_i worker hworker
      split at h
      · rename_i hphase
        obtain rfl := hphase
        exact ⟨worker.session, hworker, (Option.some.inj h).symm⟩
      · cases h
    · cases h
  · rintro ⟨s, hworker, rfl⟩
    simp [hworker]

theorem mem_advanced {s : SessionId} {worker : Worker}
    (hmem : worker ∈ w.workers.set i ⟨s, after⟩) :
    worker = ⟨s, after⟩ ∨ worker ∈ w.workers :=
  (List.mem_or_eq_of_mem_set hmem).symm

end Cases

/-! ## The invariant -/

/-- Unfinished workers hold the session of a living controller, which was not freed. -/
structure World.Wf (w : World) : Prop where
  destroyed_lt : ∀ d ∈ w.destroyed, d.1 < w.next
  session_lt : ∀ c ∈ w.controller, ∀ s ∈ c.session, s < w.next
  session_alive : ∀ c ∈ w.controller, ∀ s ∈ c.session, ∀ d ∈ w.destroyed, d.1 ≠ s
  unfinished : ∀ worker ∈ w.workers, worker.phase.unfinished = true →
    ∃ c ∈ w.controller, c.session = some worker.session

theorem World.Wf.safe {w : World} (hw : w.Wf) : w.Safe := by
  intro worker hmem hphase
  obtain ⟨c, hc, hsession⟩ := hw.unfinished worker hmem (by simp [hphase, Phase.unfinished])
  exact hw.session_alive c hc worker.session hsession

theorem wf_opened (session : Bool) (kind : SessionKind) : (World.opened session kind).Wf := by
  refine ⟨by simp [World.opened], ?_, by simp [World.opened], by simp [World.opened]⟩
  intro c hc s hs
  obtain rfl : _ = c := Option.some.inj hc
  cases session <;> simp_all [World.opened]

section Steps

variable {w w' : World}

private theorem World.Wf.advance {i : ℕ} {before after : Phase} (hw : w.Wf)
    (hphase : after.unfinished = true → before.unfinished = true)
    (h : w.advance i before after = some w') : w'.Wf := by
  obtain ⟨s, hworker, rfl⟩ := World.advance_eq_some_iff.mp h
  refine ⟨hw.destroyed_lt, hw.session_lt, hw.session_alive, ?_⟩
  intro worker hmem hafter
  rcases mem_advanced hmem with rfl | hmem
  · exact hw.unfinished ⟨s, before⟩ (List.mem_of_getElem? hworker) (hphase hafter)
  · exact hw.unfinished worker hmem hafter

private theorem World.Wf.runAnalysis (hw : w.Wf) (h : w.step .runAnalysis = some w') :
    w'.Wf := by
  obtain ⟨c, hc, rfl⟩ := Option.map_eq_some_iff.mp h
  cases hstart : c.runAnalysis.2 with
  | none =>
      -- the guard has turned the call down
      rw [c.runAnalysis_none hstart, ← hc]
      simpa using hw
  | some s =>
      obtain ⟨-, hsession, hafter⟩ := c.runAnalysis_some hstart
      have hlt := hw.session_lt c hc
      have halive := hw.session_alive c hc
      rw [hafter]
      refine ⟨hw.destroyed_lt, by simpa using hlt, by simpa using halive, ?_⟩
      intro worker hmem hphase
      refine ⟨_, rfl, ?_⟩
      show c.session = some worker.session
      rcases List.mem_append.mp hmem with hmem | hmem
      · obtain ⟨c', hc', heq⟩ := hw.unfinished worker hmem hphase
        obtain rfl : c = c' := Option.some.inj (hc.symm.trans hc')
        exact heq
      · obtain rfl : worker = { session := s } := by simpa using hmem
        exact hsession

private theorem World.Wf.all_returned (hw : w.Wf) (hheld : ¬ w.Held) :
    ∀ worker ∈ w.workers, worker.phase.unfinished = false := by
  intro worker hmem
  by_contra hphase
  have hphase : worker.phase.unfinished = true := by simpa using hphase
  obtain ⟨c, hc, hsession⟩ := hw.unfinished worker hmem hphase
  exact hheld ⟨c, hc, worker, hmem, hphase, hsession⟩

/-- A session freed now is one that was created before. -/
private theorem World.Wf.released_lt (hw : w.Wf) {c : DebugController}
    (hc : w.controller = some c) {released : List Destroyed}
    (hreleased : released.map Prod.fst = c.session.toList) :
    ∀ d ∈ w.destroyed ++ released, d.1 < w.next := by
  intro d hd
  rcases List.mem_append.mp hd with hd | hd
  · exact hw.destroyed_lt d hd
  · have hmem : d.1 ∈ c.session.toList := hreleased ▸ List.mem_map_of_mem hd
    exact hw.session_lt c hc d.1 (by simpa using hmem)

private theorem World.Wf.setSession (hw : w.Wf) (hheld : ¬ w.Held) {created : Bool}
    {kind : SessionKind} (h : w.step (.setSession created kind) = some w') : w'.Wf := by
  obtain ⟨c, hc, rfl⟩ := Option.map_eq_some_iff.mp h
  have hlt := hw.released_lt hc (c.setSession_snd (if created then some w.next else none) kind)
  refine ⟨?_, ?_, ?_, ?_⟩
  · intro d hd
    have hdlt := hlt d hd
    cases created with
    | false => exact hdlt
    | true => exact Nat.lt_succ_of_lt hdlt
  · intro c' hc' s hs
    obtain rfl := Option.some.inj hc'
    cases created with
    | false => cases hs
    | true =>
        obtain rfl : w.next = s := Option.some.inj hs
        exact Nat.lt_succ_self _
  · intro c' hc' s hs d hd
    obtain rfl := Option.some.inj hc'
    cases created with
    | false => cases hs
    | true =>
        -- the new session is numbered past all freed ones, its predecessor included
        obtain rfl : w.next = s := Option.some.inj hs
        exact Nat.ne_of_lt (hlt d hd)
  · intro worker hmem hphase
    simp [hw.all_returned hheld worker hmem] at hphase

private theorem World.Wf.destroyController (hw : w.Wf) (hheld : ¬ w.Held)
    (h : w.step .destroyController = some w') : w'.Wf := by
  obtain ⟨c, hc, rfl⟩ := Option.map_eq_some_iff.mp h
  refine ⟨hw.released_lt hc c.destroySession_snd, by simp, by simp, ?_⟩
  intro worker hmem hphase
  simp [hw.all_returned hheld worker hmem] at hphase

private theorem World.Wf.workerFinished {i : ℕ} (hw : w.Wf)
    (h : w.step (.workerFinished i) = some w') : w'.Wf := by
  simp only [World.step] at h
  split at h
  case h_2 => cases h
  case h_1 c hc =>
    obtain ⟨w₁, hadvance, rfl⟩ := Option.map_eq_some_iff.mp h
    have hw₁ := hw.advance (by simp [Phase.unfinished]) hadvance
    obtain ⟨s, -, rfl⟩ := World.advance_eq_some_iff.mp hadvance
    refine ⟨hw₁.destroyed_lt, ?_, ?_, ?_⟩
    · intro c' hc'
      obtain rfl := Option.some.inj hc'
      exact hw.session_lt c hc
    · intro c' hc'
      obtain rfl := Option.some.inj hc'
      exact hw.session_alive c hc
    · intro worker hmem hphase
      obtain ⟨c', hc', hsession⟩ := hw₁.unfinished worker hmem hphase
      obtain rfl : c = c' := Option.some.inj (hc.symm.trans hc')
      exact ⟨_, rfl, hsession⟩

theorem wf_step (hw : w.Wf) (h : AllowedStep w w') : w'.Wf := by
  obtain ⟨e, hallows, hstep⟩ := h
  cases e with
  | runAnalysis => exact hw.runAnalysis hstep
  | setSession created kind => exact hw.setSession hallows hstep
  | destroyController => exact hw.destroyController hallows hstep
  | workerBegins i => exact hw.advance (fun _ => rfl) hstep
  | workerReturns i => exact hw.advance (by simp [Phase.unfinished]) hstep
  | workerFinished i => exact hw.workerFinished hstep

end Steps

theorem AllowedReachable.wf {w : World} (h : AllowedReachable w) : w.Wf := by
  obtain ⟨session, kind, hrun⟩ := h
  induction hrun with
  | refl => exact wf_opened session kind
  | tail _ hstep ih => exact wf_step ih hstep

/-- **An analysed session stays alive** in every run whose swaps and destructions
find no unfinished worker on the current session. -/
theorem executing_alive {w : World} (h : AllowedReachable w) : w.Safe :=
  h.wf.safe

/-- Attaching to a process after the analysis of the opened file has returned. -/
theorem executing_alive_attach :
    World.Safe
      { controller := some { session := some 1, kind := .native, analyzing := true }
        workers := [⟨0, .returned⟩]
        destroyed := [(0, .static)]
        next := 2 } := by
  refine executing_alive ⟨true, .static, ?_⟩
  refine .head ⟨.runAnalysis, trivial, rfl⟩ ?_
  refine .head ⟨.workerBegins 0, trivial, rfl⟩ ?_
  refine .head ⟨.workerReturns 0, trivial, rfl⟩ ?_
  refine .single ⟨.setSession true .native, ?_, rfl⟩
  simp only [World.Allows]
  decide

/-! ## A session freed under its worker -/

section Release

variable {w w' : World} {worker : Worker}

/-- An unfinished worker on a freed session executes on it, now or after its next step. -/
private theorem unsafe_of_freed (hmem : worker ∈ w.workers)
    (hphase : worker.phase.unfinished = true) (hfreed : ∃ d ∈ w.destroyed, d.1 = worker.session) :
    ∃ w', Relation.ReflTransGen Step w w' ∧ ¬ w'.Safe := by
  obtain ⟨d, hd, hsession⟩ := hfreed
  obtain ⟨s, phase⟩ := worker
  cases phase with
  | started =>
      -- nothing on the UI thread holds the worker up: let it begin
      obtain ⟨i, hworker⟩ := List.mem_iff_getElem?.mp hmem
      have hi : i < w.workers.length := (List.getElem?_eq_some_iff.mp hworker).1
      have hstep : w.step (.workerBegins i) = some
          { w with workers := w.workers.set i ⟨s, .executing⟩ } :=
        World.advance_eq_some_iff.mpr ⟨s, hworker, rfl⟩
      refine ⟨_, .single ⟨_, hstep⟩, fun hsafe => ?_⟩
      exact hsafe ⟨s, .executing⟩ (List.mem_set hi _) rfl d hd hsession
  | executing =>
      exact ⟨w, .refl, fun hsafe => hsafe ⟨s, .executing⟩ hmem rfl d hd hsession⟩
  | returned => cases hphase
  | deleted => cases hphase

/-- A swap or destruction that finds an unfinished worker on the current session is
followed by a state, at most one step on, in which it executes on a freed session. -/
theorem release_unsafe {e : Event} (hallows : ¬ w.Allows e) (hstep : w.step e = some w') :
    ∃ w'', Relation.ReflTransGen Step w' w'' ∧ ¬ w''.Safe := by
  have hfreed : ∀ {c : DebugController} {s : SessionId} {released : List Destroyed},
      c.session = some s → released.map Prod.fst = c.session.toList →
      ∃ d ∈ w.destroyed ++ released, d.1 = s := by
    intro c s released hsession hreleased
    rw [hsession, Option.toList_some] at hreleased
    have hs : s ∈ released.map Prod.fst := by simp [hreleased]
    obtain ⟨d, hd, heq⟩ := List.mem_map.mp hs
    exact ⟨d, List.mem_append_right _ hd, heq⟩
  cases e with
  | setSession created kind =>
      obtain ⟨c, hc, worker, hmem, hphase, hsession⟩ := not_not.mp hallows
      obtain ⟨c', hc', rfl⟩ := Option.map_eq_some_iff.mp hstep
      obtain rfl : c = c' := Option.some.inj (hc.symm.trans hc')
      exact unsafe_of_freed hmem hphase (hfreed hsession (c.setSession_snd _ kind))
  | destroyController =>
      obtain ⟨c, hc, worker, hmem, hphase, hsession⟩ := not_not.mp hallows
      obtain ⟨c', hc', rfl⟩ := Option.map_eq_some_iff.mp hstep
      obtain rfl : c = c' := Option.some.inj (hc.symm.trans hc')
      exact unsafe_of_freed hmem hphase (hfreed hsession c.destroySession_snd)
  | _ => exact absurd trivial hallows

end Release

/-- What these events make of a state, if each can happen. -/
def World.run (w : World) (events : List Event) : Option World :=
  events.foldlM World.step w

theorem World.run_steps {events : List Event} : ∀ {w w' : World}, w.run events = some w' →
    Relation.ReflTransGen Step w w' := by
  induction events with
  | nil =>
      intro w w' h
      obtain rfl : w = w' := Option.some.inj h
      exact .refl
  | cons e events ih =>
      intro w w' h
      obtain ⟨w₁, hstep, hrest⟩ := Option.bind_eq_some_iff.mp h
      exact .head ⟨e, hstep⟩ (ih hrest)

/-- Attaching to a process while the opened file is analysed frees the file's
session under the worker. -/
theorem executing_freed_attach : ¬ ∀ w, Reachable w → w.Safe := by
  intro hsafe
  obtain ⟨w, hw, hunsafe⟩ : ∃ w,
      (World.opened true .static).run
        [.runAnalysis, .workerBegins 0, .setSession true .native] = some w ∧ ¬ w.Safe :=
    ⟨_, rfl, by decide⟩
  exact hunsafe (hsafe w ⟨true, .static, World.run_steps hw⟩)

end Irida.Session
