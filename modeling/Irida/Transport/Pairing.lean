import Irida.Transport.GdbClient

/-!
# Which request a reply answers

A connection is a run of transactions, of which the handshake is the first.  The
client has no sequence numbers: the `k`-th transaction that succeeds returns the
`k`-th of the replies that the server has sent (`Run.result_eq`).  So a
transaction is paired with its own reply as long as it is begun with no reply
still to come (`Run.paired`), and once a transaction was given up after its
request went out, every later one is answered by an earlier reply
(`Run.result_earlier`).
-/

namespace Irida.Transport

open Host Proto

namespace GdbClient

/-- A transaction: its request, the payloads that the server answered it with,
none of them if it was not sent, and what `transact` returned. -/
structure Exchange where
  request : Bytes
  replies : List Bytes
  result : Result Bytes
  deriving DecidableEq

/-- The exchange of a transaction. -/
def exchange (server : Server) (payload : Bytes) (c : GdbClient) : Exchange :=
  { request := payload
    replies :=
      if (transact server payload c).2.sock.requests = c.sock.requests then []
      else replies server payload c
    result := (transact server payload c).1 }

/-- The clients that a connection goes through, and the exchanges made.  Every
operation of the client is one transaction; `begins` is what is required of the
client when one begins. -/
inductive Run (server : Server) (begins : GdbClient → Prop) : GdbClient → List Exchange → Prop
  | connect {sock : TcpClient} : sock.requests = [] → sock.inFlight = [] →
      Run server begins (connect server (.ok sock) {}).2
        [exchange server reqQsupported { sock := sock }]
  | transact {c : GdbClient} {history : List Exchange} (payload : Bytes) :
      Run server begins c history → begins c →
      Run server begins (transact server payload c).2 (history ++ [exchange server payload c])
  | disconnect {c : GdbClient} {history : List Exchange} : Run server begins c history →
      Run server begins c.disconnect history

/-- All of the replies that the server has sent. -/
def sentReplies (history : List Exchange) : List Bytes :=
  history.flatMap Exchange.replies

/-- The number of transactions that succeeded. -/
def answered (history : List Exchange) : ℕ :=
  history.countP fun e => e.result.isOk

@[simp] theorem sentReplies_append (history : List Exchange) (e : Exchange) :
    sentReplies (history ++ [e]) = sentReplies history ++ e.replies := by
  simp [sentReplies]

@[simp] theorem answered_append (history : List Exchange) (e : Exchange) :
    answered (history ++ [e]) = answered history + if e.result.isOk then 1 else 0 := by
  simp [answered, List.countP_append, List.countP_cons]

section

variable {server : Server} {begins : GdbClient → Prop} {c : GdbClient} {history : List Exchange}

theorem exchange_spec (hserver : server.WellFormed) (payload : Bytes) {payloads : List Bytes}
    (h : Encodes c.stream payloads) :
    ((∃ e, (exchange server payload c).result = .error e) ∧
        Encodes (transact server payload c).2.stream
          (payloads ++ (exchange server payload c).replies)) ∨
      (∃ p payloads', (exchange server payload c).result = .ok p ∧
        (exchange server payload c).replies = replies server payload c ∧
        payloads ++ (exchange server payload c).replies = p :: payloads' ∧
        Encodes (transact server payload c).2.stream payloads') := by
  have hsent : c.sock.requests ++ [frame payload] ≠ c.sock.requests := by simp
  unfold exchange
  rcases transact_spec hserver payload h with
    ⟨e, c', hrun, hrest, hreq⟩ | ⟨e, c', hrun, hrest, hreq⟩ |
    ⟨p, payloads', c', hrun, heq, hrest, hreq⟩
  · rw [hrun]
    refine Or.inl ⟨⟨e, rfl⟩, ?_⟩
    simpa [hreq] using hrest
  · rw [hrun]
    refine Or.inl ⟨⟨e, rfl⟩, ?_⟩
    simpa [hreq] using hrest
  · rw [hrun]
    refine Or.inr ⟨p, payloads', rfl, ?_, ?_, hrest⟩
    · simp [hreq]
    · simpa [hreq] using heq

private theorem encodes_connect (sock : TcpClient) (hwire : sock.inFlight = []) :
    Encodes (stream { sock := sock }) [] := by
  rw [stream, hwire, List.append_nil]
  exact .acks acks_nil

private theorem outstanding_step (hserver : server.WellFormed) (payload : Bytes)
    (h : Encodes c.stream ((sentReplies history).drop (answered history)))
    (hle : answered history ≤ (sentReplies history).length) :
    Encodes (transact server payload c).2.stream
        ((sentReplies (history ++ [exchange server payload c])).drop
          (answered (history ++ [exchange server payload c]))) ∧
      answered (history ++ [exchange server payload c]) ≤
        (sentReplies (history ++ [exchange server payload c])).length := by
  rw [sentReplies_append, answered_append, List.length_append]
  rcases exchange_spec hserver payload h with
    ⟨⟨e, herr⟩, hrest⟩ | ⟨p, payloads', hok, -, heq, hrest⟩
  · -- given up: its reply, if the request went out, is still to come
    rw [← List.drop_append_of_le_length hle] at hrest
    have hnone : (exchange server payload c).result.isOk = false := by rw [herr]; rfl
    simp only [hnone]
    exact ⟨hrest, by simp; omega⟩
  · -- the first of the replies to come is taken, whichever request it answers
    rw [← List.drop_append_of_le_length hle] at heq
    have hone : (exchange server payload c).result.isOk = true := by rw [hok]; rfl
    have hlen := congrArg List.length heq
    rw [List.length_drop, List.length_append, List.length_cons] at hlen
    simp only [hone, if_true]
    refine ⟨?_, by omega⟩
    rwa [← List.drop_drop, heq, List.drop_one, List.tail_cons]

/-- **The replies that are still to come** are the ones sent, without as many as
transactions succeeded. -/
theorem Run.outstanding (hserver : server.WellFormed) (h : Run server begins c history) :
    Encodes c.stream ((sentReplies history).drop (answered history)) ∧
      answered history ≤ (sentReplies history).length := by
  induction h with
  | @connect sock hreq hwire =>
      have hstep := @outstanding_step server { sock := sock } [] hserver reqQsupported
        (encodes_connect sock hwire) (Nat.le_refl 0)
      rw [List.nil_append] at hstep
      exact hstep
  | transact payload _ _ ih => exact outstanding_step hserver payload ih.1 ih.2
  | disconnect _ ih => exact ih

/-- **The `k`-th transaction that succeeds returns the `k`-th reply.** -/
theorem Run.result_eq (hserver : server.WellFormed) (h : Run server begins c history)
    (payload : Bytes) {p : Bytes} (hok : (exchange server payload c).result = .ok p) :
    (sentReplies (history ++ [exchange server payload c]))[answered history]? = some p := by
  obtain ⟨hstream, hle⟩ := h.outstanding hserver
  rcases exchange_spec hserver payload hstream with ⟨⟨e, herr⟩, -⟩ | ⟨q, _, hok', -, heq, -⟩
  · rw [herr] at hok
    cases hok
  · obtain rfl : q = p := by simpa [hok'] using hok
    have hhead := congrArg List.head? heq
    rwa [← List.drop_append_of_le_length hle, List.head?_drop, List.head?_cons,
      ← sentReplies_append] at hhead

/-- After a transaction that was given up, the reply of an earlier request is
returned. -/
theorem Run.result_earlier (hserver : server.WellFormed) (h : Run server begins c history)
    (hout : answered history < (sentReplies history).length) (payload : Bytes) {p : Bytes}
    (hok : (exchange server payload c).result = .ok p) :
    (sentReplies history)[answered history]? = some p := by
  have heq := h.result_eq hserver payload hok
  rwa [sentReplies_append, List.getElem?_append_left hout] at heq

end

/-! ## A server that answers every request once -/

/-- The server that answers with these packets. -/
def single (answer : List Bytes → Packet) : Server :=
  fun requests => [answer requests]

/-- No reply is still to come: what is buffered or under way is acks only. -/
def Quiet (c : GdbClient) : Prop :=
  Acks c.stream

section

variable {answer : List Bytes → Packet} {c : GdbClient} {history : List Exchange}

/-- A client is quiet exactly if every request that was sent was answered. -/
theorem Run.quiet_iff {server : Server} {begins : GdbClient → Prop}
    (hserver : server.WellFormed) (h : Run server begins c history) :
    Quiet c ↔ answered history = (sentReplies history).length := by
  obtain ⟨hstream, hle⟩ := h.outstanding hserver
  rw [Quiet, hstream.acks_iff, List.drop_eq_nil_iff]
  omega

/-- **Requests and replies are paired** in every run whose transactions are begun
with no reply still to come. -/
theorem Run.paired (hserver : (single answer).WellFormed)
    (h : Run (single answer) Quiet c history) :
    ∀ e ∈ history, ∀ p, e.result = .ok p → e.replies = [p] := by
  -- with nothing still to come, the reply that is taken is the only one there is
  have hstep : ∀ {c : GdbClient} (payload : Bytes), Encodes c.stream [] → ∀ p,
      (exchange (single answer) payload c).result = .ok p →
        (exchange (single answer) payload c).replies = [p] := by
    intro c payload hquiet p hok
    rcases exchange_spec hserver payload hquiet with
      ⟨⟨e, herr⟩, -⟩ | ⟨q, _, hok', hreplies, heq, -⟩
    · rw [herr] at hok
      cases hok
    · obtain rfl : q = p := by simpa [hok'] using hok
      rw [hreplies]
      rw [hreplies, List.nil_append] at heq
      have hone : replies (single answer) payload c =
        [(answer (c.sock.requests ++ [frame payload])).payload] := rfl
      rw [hone] at heq ⊢
      rw [(List.cons.inj heq).1]
  induction h with
  | @connect sock _ hwire =>
      intro e he
      obtain rfl := List.mem_singleton.mp he
      exact hstep reqQsupported (encodes_connect sock hwire)
  | transact payload _ hquiet ih =>
      intro e he
      rcases List.mem_append.mp he with he | he
      · exact ih e he
      · obtain rfl := List.mem_singleton.mp he
        exact hstep payload (.acks hquiet)
  | disconnect _ ih => exact ih

end

/-! ## A reply that comes late -/

/-- Answers `E01` and `OK` in turn. -/
def alternatingAnswer (requests : List Bytes) : Packet :=
  { acks := ascii "+", payload := if requests.length % 2 = 0 then ascii "OK" else ascii "E01" }

private theorem alternating_wellFormed : (single alternatingAnswer).WellFormed := by
  intro requests p hp
  obtain rfl := List.mem_singleton.mp hp
  refine ⟨?_, ?_⟩
  · show ∀ c ∈ ascii "+", isAck c = true
    decide
  · unfold Framable alternatingAnswer
    split <;> decide

/-- The client after the handshake, over a socket with these arrivals. -/
private def handshakeClient (arrivals : List Arrival) : GdbClient :=
  (connect (single alternatingAnswer) (.ok { arrivals := arrivals }) {}).2

theorem paired_alternating :
    (exchange (single alternatingAnswer) reqReadRegisters
      (handshakeClient [.bytes 3, .bytes 512, .bytes 512])).replies = [ascii "OK"] := by
  have hquiet : Quiet (handshakeClient [.bytes 3, .bytes 512, .bytes 512]) := by
    unfold Quiet Acks
    decide
  refine Run.paired alternating_wellFormed (.transact reqReadRegisters (.connect rfl rfl) hquiet)
    _ (List.mem_append_right _ (List.mem_singleton.mpr rfl)) (ascii "OK") (by decide)

/-- The reply to the second request comes after its timeout, and is returned as
the reply to the third. -/
theorem not_paired_alternating : (single alternatingAnswer).WellFormed ∧
    ∃ c history, Run (single alternatingAnswer) (fun _ => True) c history ∧
      ∃ e ∈ history, e.result = .ok (ascii "OK") ∧ e.replies = [ascii "E01"] :=
  ⟨alternating_wellFormed, _, _,
    .transact reqStep (.transact reqReadRegisters
      (@Run.connect _ _ { arrivals := [.bytes 512, .bytes 0, .bytes 512] } rfl rfl) trivial)
      trivial, _, List.mem_append_right _ (List.mem_singleton.mpr rfl), by decide, by decide⟩

end GdbClient

end Irida.Transport
