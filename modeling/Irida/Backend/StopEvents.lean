import Irida.Backend.Native
import Irida.Host.Audit
import Mathlib.Algebra.Order.BigOperators.Group.List
import Mathlib.Algebra.Order.Group.Nat

/-!
# Debug events and stop replies

Three places take a debug event: `cont`, `step`, and the step over a breakpoint within `cont`.  Only
`cont` looks at what it got.  `step` replies `SingleStep` whatever the event was, the event of the
step over a breakpoint is dropped, and an error after the first event drops that one as well.

Over any sequence of calls the events and the replies are the same stream exactly if each call is
one of those where this makes no difference (`reports_faithful_iff`).  For one call this is read
off what it takes (`report_cases`), and no call replies more often than it has events to report,
so that the streams agree only if they do call by call.
-/

namespace Irida.NativeBackend

open Host

variable {δ : Type}

/-- The calls that resume the debuggee. -/
inductive RunCall
  | cont
  | step
  deriving DecidableEq, Repr

/-- The call of the backend. -/
def RunCall.call (host : NativeDebuggee δ) : RunCall → Call (NativeBackend δ) Backend.StopReply
  | .cont => NativeBackend.cont host
  | .step => NativeBackend.step host

/-- What a call did: the calls that it made on the debuggee, and its reply. -/
structure Report where
  call : RunCall
  made : List HostCall
  reply : Result Backend.StopReply
  deriving DecidableEq

namespace Report

/-- The events that were taken. -/
def events (r : Report) : List DbgEvent :=
  r.made.filterMap HostCall.event?

/-- The event is that of a single step of the thread that was stopped. -/
def IsOwnStep (stopped e : DbgEvent) : Prop :=
  e.kind = .singleStep ∧ e.threadId = stopped.threadId

instance (stopped e : DbgEvent) : Decidable (IsOwnStep stopped e) :=
  inferInstanceAs (Decidable (_ ∧ _))

/-- The events without those of the backend's own step behind the first one. -/
def due : List DbgEvent → List DbgEvent
  | [] => []
  | e :: later => e :: later.filter fun e' => ¬ IsOwnStep e e'

/-- The kinds of stop that are to be reported. -/
def dueKinds (r : Report) : List Backend.StopKind :=
  (due r.events).map fun e => translateKind e.kind

/-- The kinds of stop that were reported. -/
def reported (r : Report) : List Backend.StopKind :=
  match r.reply with
  | .ok reply => [reply.kind]
  | .error _ => []

/-- No event was taken; or no call of the debuggee failed, a step ended with a `SingleStep` event,
and every later event was that of the backend's own step. -/
def Plain (r : Report) : Prop :=
  match r.events with
  | [] => True
  | e :: later => (∀ c ∈ r.made, c.ok) ∧ (r.call = .step → e.kind = .singleStep) ∧
      ∀ e' ∈ later, IsOwnStep e e'

end Report

/-- The report of a call. -/
def report (host : NativeDebuggee δ) (b : NativeBackend (Audited δ)) (k : RunCall) : Report where
  call := k
  made := ((k.call host.audit).outcome b).2.debuggee.log.drop b.debuggee.log.length
  reply := ((k.call host.audit).outcome b).1

/-- The reports of a sequence of calls. -/
def reports (host : NativeDebuggee δ) : NativeBackend (Audited δ) → List RunCall → List Report
  | _, [] => []
  | b, k :: ks => report host b k :: reports host ((k.call host.audit).outcome b).2 ks

/-- The events that are due, in their order, are those that are reported. -/
def Faithful (history : List Report) : Prop :=
  history.flatMap Report.dueKinds = history.flatMap Report.reported

/-! ## The calls that are made -/

section

variable {host : NativeDebuggee δ} {b : NativeBackend (Audited δ)}

/-- The log behind a backend. -/
def made (b : NativeBackend (Audited δ)) : List HostCall :=
  b.debuggee.log

theorem onDbg_logs {α : Type} {x : Call (Audited δ) α} (hx : Call.Logs Audited.log x) :
    Call.Logs made (onDbg x) :=
  fun b => hx b.debuggee

theorem stepOver_logs (address : U64) (original : Byte) :
    Call.Logs Audited.log (stepOver host.audit address original) := by
  refine (logs_primary host).bind fun tid => ?_
  refine (logs_other (host.readRegisters tid)).bind fun block => ?_
  refine (logs_other (host.writeRegisters tid _)).bind fun _ => ?_
  refine (logs_other (host.writeMemory address _)).bind fun _ => ?_
  refine (logs_other host.resumeSingleStep).bind fun _ => ?_
  exact (logs_waitEvent host (-1)).bind fun _ => logs_other (host.writeMemory address _)

theorem translateStopAndRearm_logs (event : DbgEvent) :
    Call.Logs made (translateStopAndRearm host.audit event) := by
  have hrearm : Call.Logs made (rearm host.audit event) := by
    intro b
    by_cases hplanted : event.kind = .breakpoint ∧ b.saved event.address ≠ none
    · obtain ⟨hkind, hsaved⟩ := hplanted
      obtain ⟨original, hsaved⟩ := Option.ne_none_iff_exists'.mp hsaved
      rw [rearm_planted hkind hsaved]
      exact onDbg_logs (stepOver_logs event.address original) b
    · rw [not_and_or, not_not] at hplanted
      rw [rearm_unplanted hplanted]
      exact Call.Logs.pure () b
  exact hrearm.bind fun _ => .pure _

/-- A call resumes the debuggee, waits for an event and goes on with it. -/
theorem resume_cases (op : String) (go : Call δ Unit)
    {f : DbgEvent → Call (NativeBackend (Audited δ)) Backend.StopReply}
    (hf : ∀ event, Call.Logs made (f event)) (b : NativeBackend (Audited δ))
    {r : Result Backend.StopReply} {b' : NativeBackend (Audited δ)}
    (h : Call.outcome (do
      requireAttached op
      onDbg (go.noted (HostCall.other ·.isOk))
      let event ← onDbg (host.audit.waitEvent (-1))
      f event) b = (r, b')) :
    ((∃ e, r = .error e) ∧ ∃ calls, made b' = made b ++ calls ∧
        calls.filterMap HostCall.event? = []) ∨
      ∃ event b₁ calls, (f event).outcome b₁ = (r, b') ∧
        made b' = made b ++ (.other true :: .waitEvent (some event) :: calls) ∧
        ((∃ reply, r = .ok reply) ↔ ∀ c ∈ calls, c.ok) := by
  by_cases hattached : b.attached = true
  swap
  · rw [Call.outcome_bind_error
      (requireAttached_outcome_error op (eq_false_of_ne_true hattached))] at h
    obtain ⟨rfl, rfl⟩ := Prod.mk.inj h
    exact Or.inl ⟨⟨_, rfl⟩, [], (List.append_nil _).symm, rfl⟩
  rw [Call.outcome_bind_ok (requireAttached_outcome op hattached)] at h
  -- the debuggee is not resumed
  rcases hgo : go.outcome b.debuggee.debuggee with ⟨e | ⟨⟩, d⟩
  · rw [Call.outcome_bind_error (onDbg_outcome_error (Call.noted_outcome hgo))] at h
    obtain ⟨rfl, rfl⟩ := Prod.mk.inj h
    exact Or.inl ⟨⟨_, rfl⟩, [.other false], rfl, rfl⟩
  rw [Call.outcome_bind_ok (onDbg_outcome_ok (Call.noted_outcome hgo))] at h
  -- it is, and no event comes
  rcases hwait : (host.waitEvent (-1)).outcome d with ⟨e | event, d'⟩
  · have hwaited := audit_waitEvent host (d := ⟨d, b.debuggee.log ++ [.other true]⟩) hwait
    rw [Call.outcome_bind_error (onDbg_outcome_error hwaited)] at h
    obtain ⟨rfl, rfl⟩ := Prod.mk.inj h
    exact Or.inl ⟨⟨_, rfl⟩, [.other true, .waitEvent none], List.append_assoc .., rfl⟩
  have hwaited := audit_waitEvent host (d := ⟨d, b.debuggee.log ++ [.other true]⟩) hwait
  rw [Call.outcome_bind_ok (onDbg_outcome_ok hwaited)] at h
  change (f event).outcome { b with
    debuggee := ⟨d', b.debuggee.log ++ [.other true] ++ [.waitEvent (some event)]⟩ } = _ at h
  -- an event has come, and `f` makes the calls behind it
  obtain ⟨calls, hlog, hok⟩ := hf event _
  rw [h] at hlog hok
  refine Or.inr ⟨event, _, calls, h, ?_, hok⟩
  calc made b'
      = b.debuggee.log ++ [.other true] ++ [.waitEvent (some event)] ++ calls := hlog
    _ = made b ++ (.other true :: .waitEvent (some event) :: calls) := by
      rw [List.append_assoc, List.append_assoc]
      rfl

/-- What the reply says about an event. -/
def RunCall.replyKind : RunCall → DbgEvent → Backend.StopKind
  | .cont, event => translateKind event.kind
  | .step, _ => .singleStep

/-- A run call fails without an event; or it takes one, and its reply, if there is one, is about
that one. -/
theorem call_cases (host : NativeDebuggee δ) (k : RunCall) {b b' : NativeBackend (Audited δ)}
    {r : Result Backend.StopReply} (h : (k.call host.audit).outcome b = (r, b')) :
    ((∃ e, r = .error e) ∧ ∃ calls, made b' = made b ++ calls ∧
        calls.filterMap HostCall.event? = []) ∨
      ∃ event calls, made b' = made b ++ (.other true :: .waitEvent (some event) :: calls) ∧
        (∀ reply, r = .ok reply → reply.kind = k.replyKind event) ∧
        ((∃ reply, r = .ok reply) ↔ ∀ c ∈ calls, c.ok) := by
  cases k with
  | cont =>
      have hlogs : ∀ event, Call.Logs made (translateStopAndRearm host.audit event) :=
        translateStopAndRearm_logs
      rcases resume_cases "cont" host.resume hlogs b h with
        hnone | ⟨event, b₁, calls, htranslate, hmade, hok⟩
      · exact Or.inl hnone
      · refine Or.inr ⟨event, calls, hmade, fun reply hreply => ?_, hok⟩
        rw [hreply] at htranslate
        exact (translateStopAndRearm_eq_ok htranslate).2.1
  | step =>
      rcases @resume_cases _ host "step" host.resumeSingleStep _ (fun event => .pure _) b _ _ h with
        hnone | ⟨event, b₁, calls, hreply, hmade, hok⟩
      · exact Or.inl hnone
      · refine Or.inr ⟨event, calls, hmade, fun reply hr => ?_, hok⟩
        have hreply := (Prod.mk.inj hreply).1.trans hr
        rw [← Except.ok.inj hreply]
        rfl

/-- A call takes no event and reports none; or it takes one, and reports that one if no call of the
debuggee failed. -/
theorem report_cases (host : NativeDebuggee δ) (b : NativeBackend (Audited δ)) (k : RunCall) :
    ((report host b k).events = [] ∧ (report host b k).reported = []) ∨
      ∃ event later, (report host b k).events = event :: later ∧
        ((∀ c ∈ (report host b k).made, c.ok) ∧
            (report host b k).reported = [k.replyKind event] ∨
          (¬ ∀ c ∈ (report host b k).made, c.ok) ∧ (report host b k).reported = []) := by
  rcases hcall : (k.call host.audit).outcome b with ⟨r, b'⟩
  have hlog : ∀ {calls}, made b' = made b ++ calls → (report host b k).made = calls := by
    intro calls hlog
    show (made ((k.call host.audit).outcome b).2).drop (made b).length = calls
    rw [hcall, hlog, List.drop_left]
  have hreply : (report host b k).reply = r := congrArg Prod.fst hcall
  unfold Report.events Report.reported
  rcases call_cases host k hcall with
    ⟨⟨e, rfl⟩, calls, hmade, hnone⟩ | ⟨event, calls, hmade, hkind, hok⟩
  · left
    rw [hlog hmade, hreply]
    exact ⟨hnone, rfl⟩
  · right
    -- the calls before the event have succeeded, or there would be none
    have hall : (∀ c ∈ HostCall.other true :: .waitEvent (some event) :: calls, c.ok) ↔
        ∀ c ∈ calls, c.ok := by simp [HostCall.ok]
    refine ⟨event, calls.filterMap HostCall.event?, ?_, ?_⟩
    · rw [hlog hmade]
      rfl
    · rw [hlog hmade, hreply, hall, ← hok]
      cases r with
      | error e => exact Or.inr ⟨by simp, rfl⟩
      | ok reply => exact Or.inl ⟨⟨reply, rfl⟩, by rw [← hkind reply rfl]⟩

/-! ## One call, and all of them -/

theorem translateKind_eq_singleStep {kind : DbgEventKind} :
    translateKind kind = .singleStep ↔ kind = .singleStep := by
  cases kind <;> simp [translateKind]

theorem translateKind_eq_replyKind {k : RunCall} {event : DbgEvent} :
    translateKind event.kind = k.replyKind event ↔ (k = .step → event.kind = .singleStep) := by
  cases k with
  | cont => exact iff_of_true rfl (by simp)
  | step =>
      rw [RunCall.replyKind, translateKind_eq_singleStep]
      simp

theorem length_reported_le (host : NativeDebuggee δ) (b : NativeBackend (Audited δ)) (k : RunCall) :
    (report host b k).reported.length ≤ (report host b k).dueKinds.length := by
  unfold Report.dueKinds
  rcases report_cases host b k with ⟨hnone, hreported⟩ | ⟨event, later, hevents, hreported⟩
  · rw [hreported]
    exact Nat.zero_le _
  · rw [hevents]
    rcases hreported with ⟨-, hreported⟩ | ⟨-, hreported⟩ <;> simp [hreported, Report.due]

/-- The events of a call are reported exactly if it is a plain one. -/
theorem dueKinds_eq_reported_iff (host : NativeDebuggee δ) (b : NativeBackend (Audited δ))
    (k : RunCall) : (report host b k).dueKinds = (report host b k).reported ↔
      (report host b k).Plain := by
  unfold Report.dueKinds Report.Plain
  rcases report_cases host b k with ⟨hnone, hreported⟩ | ⟨event, later, hevents, hreported⟩
  · rw [hnone, hreported]
    exact iff_of_true rfl trivial
  · rw [hevents]
    dsimp only
    rcases hreported with ⟨hok, hreported⟩ | ⟨hfailed, hreported⟩
    · rw [hreported, Report.due, List.map_cons, List.cons.injEq, translateKind_eq_replyKind,
        List.map_eq_nil_iff, List.filter_eq_nil_iff, and_iff_right hok]
      simp [report]
    · rw [hreported]
      exact iff_of_false (List.cons_ne_nil _ _) fun h => hfailed h.1

theorem flatMap_eq_flatMap_iff {α β : Type} {f g : α → List β} {l : List α}
    (h : ∀ a ∈ l, (g a).length ≤ (f a).length) :
    l.flatMap f = l.flatMap g ↔ ∀ a ∈ l, f a = g a := by
  refine ⟨fun heq => ?_, List.flatMap_congr⟩
  induction l with
  | nil => exact fun a ha => absurd ha List.not_mem_nil
  | cons a l ih =>
      obtain ⟨hfirst, hrest⟩ := List.forall_mem_cons.mp h
      have htail : (l.flatMap g).length ≤ (l.flatMap f).length := by
        rw [List.length_flatMap, List.length_flatMap]
        exact List.sum_le_sum hrest
      rw [List.flatMap_cons, List.flatMap_cons] at heq
      have hlen := congrArg List.length heq
      rw [List.length_append, List.length_append] at hlen
      obtain ⟨hhead, htail⟩ := List.append_inj heq (by omega)
      exact List.forall_mem_cons.mpr ⟨hhead, ih hrest htail⟩

theorem mem_reports {ks : List RunCall} {b : NativeBackend (Audited δ)} {r : Report}
    (h : r ∈ reports host b ks) : ∃ b k, r = report host b k := by
  induction ks generalizing b with
  | nil => exact absurd h List.not_mem_nil
  | cons k ks ih =>
      rcases List.mem_cons.mp h with rfl | h
      · exact ⟨b, k, rfl⟩
      · exact ih h

end

/-- **When no event is lost or mislabelled.** Over any sequence of calls, from any backend and over
any debuggee, the events that are due are those that are reported exactly if every call is a plain
one. -/
theorem reports_faithful_iff (host : NativeDebuggee δ) (b : NativeBackend (Audited δ))
    (ks : List RunCall) : Faithful (reports host b ks) ↔ ∀ r ∈ reports host b ks, r.Plain := by
  have hlength : ∀ r ∈ reports host b ks, r.reported.length ≤ r.dueKinds.length := by
    intro r hr
    obtain ⟨b, k, rfl⟩ := mem_reports hr
    exact length_reported_le host b k
  rw [Faithful, flatMap_eq_flatMap_iff hlength]
  refine forall₂_congr fun r hr => ?_
  obtain ⟨b, k, rfl⟩ := mem_reports hr
  exact dueKinds_eq_reported_iff host b k

/-! ## A debuggee that exits -/

/-- A debuggee on which every call succeeds, and which delivers these events. -/
def scripted : NativeDebuggee (List DbgEvent) where
  attach _ := pure ()
  detach := pure ()
  waitEvent _
    | [] => (.error "WaitForDebugEvent failed", [])
    | e :: events => (.ok e, events)
  resume := pure ()
  resumeSingleStep := pure ()
  requestStop := pure ()
  readRegisters _ := pure []
  writeRegisters _ _ := pure ()
  readMemory _ len := pure (List.replicate len.toNat 0x90)
  writeMemory _ _ := pure ()
  setHwExecBp _ _ := pure ()
  clearHwBp _ := pure ()
  primaryThread _ := 1

/-- A backend attached to it, with a breakpoint at `0x1000`. -/
def scriptedBackend (events : List DbgEvent) : NativeBackend (Audited (List DbgEvent)) :=
  { attached := true
    debuggee := { debuggee := events }
    swBpOrig := (∅ : Std.ExtTreeMap U64 Byte).insert 0x1000 0x90 }

/-- The process exits during a step, and while a breakpoint is stepped over: the first exit is
reported as a `SingleStep`, and the second one not at all. -/
theorem not_faithful_scripted :
    ¬ Faithful (reports scripted (scriptedBackend [{ kind := .exitProcess, threadId := 1 }])
        [.step]) ∧
      ¬ Faithful (reports scripted
        (scriptedBackend [{ kind := .breakpoint, threadId := 1, address := 0x1000 },
          { kind := .exitProcess, threadId := 1 }]) [.cont]) := by
  unfold Faithful
  decide

end Irida.NativeBackend
