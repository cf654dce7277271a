import Irida.Backend.RunCalls

/-!
# What becomes of the stop reply

Between the payload and the caller of `Target::cont` or `step` a stop reply is rewritten twice:
`translate_stop` normalizes it, and `to_proto_stop_reply` maps the normalized reason back onto the
wire shape.  The code survives for every payload.  Of the kinds, `Signal` and `Exited` survive,
whatever the fields of the reply are.  `Terminated` is normalized to a kind that no other
wire kind has (`translateStop_error_iff`), and mapped back to `Unknown`.  So the kind survives for
all payloads but those that begin with an `X` (`stopKind_iff`).
-/

namespace Irida.GdbBackend

open Host Proto Transport GdbClient

/-- The stop reply that a target returns for what was parsed. -/
def retold (wire : Proto.StopReply) : Proto.StopReply :=
  toProtoStopReply (translateStop wire)

/-! ## The two mappings -/

theorem retold_code (wire : Proto.StopReply) : (retold wire).code = wire.code := rfl

/-- The normalized kind still tells a killed process from everything else. -/
theorem translateStop_error_iff (wire : Proto.StopReply) :
    (translateStop wire).kind = .error ↔ wire.kind = .terminated := by
  unfold translateStop
  cases wire.kind with
  | signal =>
      dsimp only
      split <;> simp
  | exited => simp
  | terminated => simp
  | output => simp
  | unknown => simp

theorem retold_signal {wire : Proto.StopReply} (h : wire.kind = .signal) :
    (retold wire).kind = .signal := by
  have hnormal : (translateStop wire).kind = .breakpoint ∨ (translateStop wire).kind = .signal := by
    simp only [translateStop, h]
    split
    · exact Or.inl rfl
    · exact Or.inr rfl
  rcases hnormal with hbreakpoint | hsignal
  · simp only [retold, toProtoStopReply, hbreakpoint]
  · simp only [retold, toProtoStopReply, hsignal]

theorem retold_exited {wire : Proto.StopReply} (h : wire.kind = .exited) :
    (retold wire).kind = .exited := by
  simp only [retold, toProtoStopReply, translateStop, h]

theorem retold_error {wire : Proto.StopReply} (h : (translateStop wire).kind = .error) :
    (retold wire).kind = .unknown := by
  simp only [retold, toProtoStopReply, h]

/-! ## The kinds of stop payloads -/

theorem kind_parseStopReply {payload : Bytes} (h : IsStopPayload payload) :
    (parseStopReply payload).kind =
      if payload.head? = some (byte 'X') then .terminated
      else if payload.head? = some (byte 'W') then .exited
      else .signal := by
  cases payload with
  | nil => simp [IsStopPayload] at h
  | cons t rest =>
      simp only [IsStopPayload, List.head?_cons, Option.some.injEq] at h
      rcases h with rfl | rfl | rfl | rfl
      all_goals rfl

/-- **Which kinds survive.** -/
theorem retold_kind_iff {payload : Bytes} (h : IsStopPayload payload) :
    (retold (parseStopReply payload)).kind = (parseStopReply payload).kind ↔
      payload.head? ≠ some (byte 'X') := by
  have hkind := kind_parseStopReply h
  by_cases hkilled : payload.head? = some (byte 'X')
  · rw [if_pos hkilled] at hkind
    have hlost := retold_error ((translateStop_error_iff _).mpr hkind)
    refine iff_of_false (fun hsame => ?_) (fun hother => hother hkilled)
    rw [hlost, hkind] at hsame
    cases hsame
  · rw [if_neg hkilled] at hkind
    have hsame : (retold (parseStopReply payload)).kind = (parseStopReply payload).kind := by
      split at hkind
      · rw [retold_exited hkind, hkind]
      · rw [retold_signal hkind, hkind]
    exact iff_of_true hsame hkilled

/-! ## The run calls of a target -/

/-- **When the stop reply survives the layers.**  Over every server, every state of the target and
both run calls: the target returns the kind and the code of the payload that it received exactly
if the payload does not begin with an `X`. -/
theorem stopKind_iff {server : Server} {k : RunCall} {t t' : Target GdbClient} {payload : Bytes}
    {c' : GdbClient} {reply : Proto.StopReply}
    (hreceived : transact server k.request t.backend = (.ok payload, c'))
    (hstop : IsStopPayload payload) (hcall : k.target server t = (.ok reply, t')) :
    (reply.kind = (parseStopReply payload).kind ∧ reply.code = (parseStopReply payload).code) ↔
      payload.head? ≠ some (byte 'X') := by
  obtain ⟨received, c'', hrun, rfl⟩ := transact_of_target hcall
  rw [hreceived] at hrun
  cases hrun
  rw [← retold_kind_iff hstop]
  exact and_iff_left (retold_code _)

/-! ## A process that is killed -/

/-- Answers the first request with a stop reply and all others with an empty block of registers. -/
def stopServer (payload : Bytes) : Server :=
  fun requests => [{ payload := if requests.length = 1 then payload else [] }]

/-- A target that has just begun, with enough of the network for a run call. -/
def freshTarget : Target GdbClient :=
  { backend := { sock := { arrivals := [.bytes 512, .bytes 512] } } }

private theorem received_breakpoint :
    (transact (stopServer (ascii "T05swbreak:;")) RunCall.cont.request freshTarget.backend).1 =
      .ok (ascii "T05swbreak:;") := by
  decide

private theorem stopped_breakpoint :
    (RunCall.cont.target (stopServer (ascii "T05swbreak:;")) freshTarget).1 =
      .ok { kind := .signal, code := 5 } := by
  decide

theorem stopKind_iff_breakpoint :
    (Proto.StopReply.Kind.signal = (parseStopReply (ascii "T05swbreak:;")).kind ∧
      (5 : ℤ) = (parseStopReply (ascii "T05swbreak:;")).code) ↔
      (ascii "T05swbreak:;").head? ≠ some (byte 'X') := by
  have hcall : RunCall.cont.target (stopServer (ascii "T05swbreak:;")) freshTarget =
      (.ok { kind := .signal, code := 5 },
        (RunCall.cont.target (stopServer (ascii "T05swbreak:;")) freshTarget).2) :=
    Prod.ext stopped_breakpoint rfl
  exact stopKind_iff (Prod.ext received_breakpoint rfl) (by decide) hcall

/-- **A killed process is reported as unknown.**  The payload `X09` is received, and `cont` returns
a reply of the kind `Unknown`. -/
theorem not_stopKind :
    (transact (stopServer (ascii "X09")) RunCall.cont.request freshTarget.backend).1 =
      .ok (ascii "X09") ∧
    IsStopPayload (ascii "X09") ∧
    (parseStopReply (ascii "X09")).kind = .terminated ∧
    (RunCall.cont.target (stopServer (ascii "X09")) freshTarget).1 =
      .ok { kind := .unknown, code := 9 } := by
  decide

end Irida.GdbBackend
