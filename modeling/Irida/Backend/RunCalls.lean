import Irida.Backend.Gdb

/-!
# Run calls over gdb-remote

`cont` and `step` send `c` or `s` and take the first payload that comes back for
the stop reply.  Whatever the payload is, `parse_stop_reply`, `translate_stop` and
`to_proto_stop_reply` all report success.  So a run call returns at a halt exactly
if the first payload that the server sends is a stop reply (`runCall_iff`), over
all ways in which the bytes may arrive.
-/

namespace Irida.GdbBackend

open Host Proto Transport GdbClient

/-- The two run calls. -/
inductive RunCall
  | cont
  | step
  deriving DecidableEq, Repr

namespace RunCall

/-- The request of a run call. -/
def request : RunCall → Bytes
  | .cont => reqContinue
  | .step => reqStep

/-- The run call of the client. -/
def client (server : Server) : RunCall → GdbClient → Result Proto.StopReply × GdbClient
  | .cont => GdbClient.cont server
  | .step => GdbClient.step server

/-- The run call of a target over the client. -/
def target (server : Server) :
    RunCall → Target GdbClient → Result Proto.StopReply × Target GdbClient
  | .cont => Target.cont (ops server)
  | .step => Target.step (ops server)

end RunCall

section

variable {server : Server}

/-! ## How far the loop of `transact` reads -/

/-- The bytes that the 64 attempts of `transact` can read before the last of
them decodes. -/
def attemptBytes : ℕ := 512 * 63

/-- A first frame that is too long for the attempts is not taken. -/
theorem receiveLoop_long {attempts : ℕ} {c : GdbClient} {acks payload missing rest : Bytes}
    (hacks : Acks acks) (hpayload : Framable payload)
    (hdec : c.decoder ++ missing = acks ++ frame payload)
    (hwire : c.sock.inFlight = missing ++ rest) (hlong : 512 * attempts < missing.length) :
    ∃ e c', receiveLoop (attempts + 1) c = (.error e, c') := by
  induction attempts generalizing c acks missing with
  | zero =>
      have hmissing : missing ≠ [] := List.ne_nil_of_length_pos (by omega)
      rcases c.sock.recv_cases 512 with ⟨e, sock, hrecv, -, -⟩ | ⟨bytes, sock, hrecv, -, -, -⟩
      · exact ⟨e, receiveLoop_recv_error hacks hpayload hmissing hdec hrecv 0⟩
      · obtain ⟨acks', buf, -, -, hloop⟩ := receiveLoop_recv hacks hpayload hmissing hdec hrecv
        exact ⟨_, _, hloop 0⟩
  | succ attempts ih =>
      have hmissing : missing ≠ [] := List.ne_nil_of_length_pos (by omega)
      rcases c.sock.recv_cases 512 with
        ⟨e, sock, hrecv, -, -⟩ | ⟨bytes, sock, hrecv, -, hbytes, hsize⟩
      · exact ⟨e, receiveLoop_recv_error hacks hpayload hmissing hdec hrecv (attempts + 1)⟩
      · obtain ⟨acks', buf, hacks', hbuf, hloop⟩ :=
          receiveLoop_recv hacks hpayload hmissing hdec hrecv
        -- the bytes received are a part of what is missing
        obtain ⟨missing', rfl⟩ : ∃ missing', missing = bytes ++ missing' := by
          rw [hwire] at hbytes
          rcases List.append_eq_append_iff.mp hbytes with ⟨tail, rfl, -⟩ | ⟨tail, rfl, -⟩
          · rw [List.length_append] at hsize
            omega
          · exact ⟨tail, rfl⟩
        rw [hwire, List.append_assoc] at hbytes
        rw [List.length_append] at hlong
        have hnext : 512 * attempts < missing'.length := by omega
        have hdec' : buf ++ bytes ++ missing' = acks' ++ frame payload := by
          rw [List.append_assoc]
          exact hbuf
        have hwire' : sock.inFlight = missing' ++ rest := (List.append_cancel_left hbytes).symm
        rw [hloop]
        exact ih (c := ⟨sock, buf ++ bytes⟩) hacks' hdec' hwire' hnext

/-- A first frame that is not too long is taken if the bytes arrive. -/
theorem receiveLoop_short {attempts later : ℕ} {c : GdbClient} {acks payload missing rest : Bytes}
    (hacks : Acks acks) (hpayload : Framable payload)
    (hdec : c.decoder ++ missing = acks ++ frame payload)
    (hwire : c.sock.inFlight = missing ++ rest) (hconn : c.sock.connected = true)
    (harrivals : c.sock.arrivals = List.replicate later (.bytes 512)) (hlater : attempts ≤ later)
    (hshort : missing.length ≤ 512 * attempts) :
    ∃ c', receiveLoop (attempts + 1) c = (.ok payload, c') := by
  induction attempts generalizing later c acks missing with
  | zero =>
      obtain rfl := List.length_eq_zero_iff.mp (Nat.le_zero.mp (by simpa using hshort))
      rw [List.append_nil] at hdec
      exact ⟨_, receiveLoop_frame hacks hpayload (by rw [hdec, List.append_nil])⟩
  | succ attempts ih =>
      by_cases hmissing : missing = []
      · subst hmissing
        rw [List.append_nil] at hdec
        exact ⟨_, receiveLoop_frame hacks hpayload (by rw [hdec, List.append_nil])⟩
      obtain ⟨later, rfl⟩ : ∃ n, later = n + 1 := ⟨later - 1, by omega⟩
      have hpos := List.length_pos_iff.mpr hmissing
      have hlen : c.sock.inFlight.length = missing.length + rest.length := by
        rw [hwire, List.length_append]
      have hrecv := TcpClient.recv_bytes hconn (harrivals.trans List.replicate_succ)
        (show 0 < min (min 512 512) c.sock.inFlight.length by omega)
      rw [min_self] at hrecv
      obtain ⟨acks', buf, hacks', hbuf, hloop⟩ :=
        receiveLoop_recv hacks hpayload hmissing hdec hrecv
      rw [hloop]
      clear hloop hrecv
      generalize hk : min 512 c.sock.inFlight.length = k
      by_cases hall : missing.length ≤ 512
      · -- the rest of the frame has arrived
        have hbytes : c.sock.inFlight.take k = missing ++ rest.take (k - missing.length) := by
          rw [hwire, List.take_append, List.take_of_length_le (by omega)]
        have hdec' : buf ++ c.sock.inFlight.take k =
            acks' ++ (frame payload ++ rest.take (k - missing.length)) := by
          rw [hbytes, ← List.append_assoc, hbuf, List.append_assoc]
        exact ⟨_, receiveLoop_frame hacks' hpayload hdec'⟩
      · -- another part of it has arrived
        obtain rfl : k = 512 := by omega
        have hdrop : c.sock.inFlight.drop 512 = missing.drop 512 ++ rest := by
          rw [hwire, List.drop_append_of_le_length (by omega)]
        have hdec' : buf ++ c.sock.inFlight.take 512 ++ missing.drop 512 =
            acks' ++ frame payload := by
          calc buf ++ c.sock.inFlight.take 512 ++ missing.drop 512
              = buf ++ (missing.take 512 ++ missing.drop 512) := by
                rw [hwire, List.take_append_of_le_length (by omega), List.append_assoc]
            _ = acks' ++ frame payload := by rw [List.take_append_drop, hbuf]
        have hshort' : (missing.drop 512).length ≤ 512 * attempts := by
          rw [List.length_drop]
          omega
        exact ih hacks' hdec' hdrop hconn rfl (by omega) hshort'

private theorem first_frame (c : GdbClient) (p : Packet) :
    c.decoder ++ (c.sock.inFlight ++ p.encode) = c.stream ++ p.acks ++ frame p.payload := by
  simp only [stream, Packet.encode, List.append_assoc]

private theorem append_encodePackets (wire : Bytes) (p : Packet) (packets : List Packet) :
    wire ++ encodePackets (p :: packets) = wire ++ p.encode ++ encodePackets packets := by
  rw [encodePackets, List.flatMap_cons, List.append_assoc]
  rfl

/-- A request whose first reply is too long is never answered. -/
theorem transact_long {c : GdbClient} {request : Bytes} {p : Packet} {packets : List Packet}
    (hserver : server.WellFormed) (hquiet : Quiet c)
    (hpackets : server (c.sock.requests ++ [frame request]) = p :: packets)
    (hlong : attemptBytes < (c.sock.inFlight ++ p.encode).length) {payload : Bytes}
    {c' : GdbClient} : transact server request c ≠ (.ok payload, c') := by
  obtain ⟨hacks, hpayload⟩ := hserver _ p (by rw [hpackets]; exact List.mem_cons_self ..)
  unfold transact
  rcases c.sock.send_cases server (frame request) with
    ⟨e, sock, hsend, -, -⟩ | ⟨n, sock, hsend, -, hwire⟩
  · rw [hsend]
    simp
  · rw [hsend]
    have hrest : sock.inFlight = c.sock.inFlight ++ p.encode ++ encodePackets packets := by
      rw [hwire, hpackets, append_encodePackets]
    obtain ⟨e, c'', hloop⟩ := receiveLoop_long (c := ⟨sock, c.decoder⟩) (hquiet.append hacks)
      hpayload (first_frame c p) hrest hlong
    simp only [hloop]
    simp

/-- The client with another schedule of the network. -/
def onNetwork (c : GdbClient) (sends : List Bool) (arrivals : List Arrival) : GdbClient :=
  { c with sock := { c.sock with sends := sends, arrivals := arrivals } }

/-- A first reply that is not too long is returned if the bytes arrive. -/
theorem transact_short {c : GdbClient} {request : Bytes} {p : Packet} {packets : List Packet}
    (hserver : server.WellFormed) (hquiet : Quiet c) (hconn : c.sock.connected = true)
    (hpackets : server (c.sock.requests ++ [frame request]) = p :: packets)
    (hshort : (c.sock.inFlight ++ p.encode).length ≤ attemptBytes) :
    ∃ c', transact server request (onNetwork c [] (List.replicate 63 (.bytes 512))) =
      (.ok p.payload, c') := by
  obtain ⟨hacks, hpayload⟩ := hserver _ p (by rw [hpackets]; exact List.mem_cons_self ..)
  unfold transact
  have hsend : (onNetwork c [] (List.replicate 63 (.bytes 512))).sock.send server (frame request) =
      (.ok (frame request).length,
        { c.sock with
          sends := []
          arrivals := List.replicate 63 (.bytes 512)
          requests := c.sock.requests ++ [frame request]
          inFlight := c.sock.inFlight ++ encodePackets (p :: packets) }) := by
    simp [TcpClient.send, onNetwork, hconn, hpackets]
  rw [hsend]
  exact receiveLoop_short (hquiet.append hacks) hpayload (first_frame c p)
    (append_encodePackets c.sock.inFlight p packets) hconn rfl (Nat.le_refl 63) hshort

/-! ## What a run call consumes -/

/-- A successful transaction consumed a stop reply, which was the first of its
replies, and left the others in the stream. -/
def ConsumedStop (server : Server) (request : Bytes) (c : GdbClient) (payload : Bytes)
    (c' : GdbClient) : Prop :=
  IsStopPayload payload ∧ ∃ rest, replies server request c = payload :: rest ∧
    Encodes c'.stream rest

/-- The run call of the client, if it succeeds, has consumed a stop reply. -/
def ClientHalts (server : Server) (k : RunCall) (c : GdbClient) : Prop :=
  ∀ reply c', k.client server c = (.ok reply, c') → ∃ payload,
    transact server k.request c = (.ok payload, c') ∧ ConsumedStop server k.request c payload c'

/-- The run call of a target over the client, if it succeeds, has consumed a stop
reply. -/
def TargetHalts (server : Server) (k : RunCall) (c : GdbClient) : Prop :=
  ∀ t reply t', t.backend = c → k.target server t = (.ok reply, t') → ∃ payload c',
    transact server k.request c = (.ok payload, c') ∧ ConsumedStop server k.request c payload c'

/-- The server answers with nothing, or with a stop reply first, or with a first
packet that is longer than a transaction reads. -/
def FirstReplyHalts (server : Server) (k : RunCall) (c : GdbClient) : Prop :=
  ∀ p packets, server (c.sock.requests ++ [frame k.request]) = p :: packets →
    IsStopPayload p.payload ∨ attemptBytes < (c.sock.inFlight ++ p.encode).length

theorem client_eq (k : RunCall) (c : GdbClient) :
    k.client server c =
      (asStop (transact server k.request c).1, (transact server k.request c).2) := by
  cases k <;> rfl

theorem transact_of_client {k : RunCall} {c c' : GdbClient} {reply : Proto.StopReply}
    (h : k.client server c = (.ok reply, c')) :
    ∃ payload, transact server k.request c = (.ok payload, c') ∧
      reply = parseStopReply payload := by
  rw [client_eq] at h
  cases hrun : transact server k.request c with
  | mk r c'' =>
      rw [hrun] at h
      cases r with
      | error e => cases h
      | ok payload =>
          cases h
          exact ⟨payload, rfl, rfl⟩

theorem transact_of_target {k : RunCall} {t t' : Target GdbClient} {reply : Proto.StopReply}
    (h : k.target server t = (.ok reply, t')) :
    ∃ payload c', transact server k.request t.backend = (.ok payload, c') ∧
      reply = toProtoStopReply (translateStop (parseStopReply payload)) := by
  have htranslated : ∃ stop b, translated (k.client server t.backend) = (.ok stop, b) ∧
      reply = toProtoStopReply stop := by
    cases k <;> exact Target.resume_ok h
  obtain ⟨stop, b, hrun, hreply⟩ := htranslated
  cases hclient : k.client server t.backend with
  | mk r c' =>
      rw [hclient] at hrun
      cases r with
      | error e => cases hrun
      | ok wire =>
          obtain ⟨payload, htransact, rfl⟩ := transact_of_client hclient
          cases hrun
          exact ⟨payload, _, htransact, hreply⟩

theorem FirstReplyHalts.consumedStop {k : RunCall} {c c' : GdbClient} {payload : Bytes}
    (h : FirstReplyHalts server k c) (hserver : server.WellFormed) (hquiet : Quiet c)
    (hrun : transact server k.request c = (.ok payload, c')) :
    ConsumedStop server k.request c payload c' := by
  rcases transact_spec hserver k.request (.acks hquiet) with
    ⟨e, _, herr, -⟩ | ⟨e, _, herr, -⟩ | ⟨q, rest, _, hok, heq, hrest, -⟩
  · rw [hrun] at herr
    cases herr
  · rw [hrun] at herr
    cases herr
  · rw [hrun] at hok
    cases hok
    -- nothing was still to come, so the payload begins the answer to this request
    rw [List.nil_append] at heq
    refine ⟨?_, rest, heq, hrest⟩
    obtain ⟨p, packets, hpackets, hp, -⟩ := List.map_eq_cons_iff.mp heq
    rcases h p packets hpackets with hstop | hlong
    · rwa [← hp]
    · exact absurd hrun (transact_long hserver hquiet hpackets hlong)

end

/-- **When a run call returns only at a halt.**  With no reply still to come from
before, and over all ways in which the bytes may arrive: exactly if the server
does not begin its answer with a payload that is no stop reply. -/
theorem runCall_iff {server : Server} (hserver : server.WellFormed) (k : RunCall) {c : GdbClient}
    (hquiet : Quiet c) (hconn : c.sock.connected = true) :
    (∀ sends arrivals, ClientHalts server k (onNetwork c sends arrivals) ∧
      TargetHalts server k (onNetwork c sends arrivals)) ↔ FirstReplyHalts server k c := by
  constructor
  · intro h p packets hpackets
    by_contra hnot
    obtain ⟨hstop, hlong⟩ := not_or.mp hnot
    -- on a network that delivers as much as is asked for, the payload is consumed
    obtain ⟨c', hrun⟩ := transact_short hserver hquiet hconn hpackets (Nat.le_of_not_lt hlong)
    have hclient : k.client server (onNetwork c [] (List.replicate 63 (.bytes 512))) =
        (.ok (parseStopReply p.payload), c') := by
      rw [client_eq, hrun]
      rfl
    obtain ⟨payload, hrun', hconsumed, -⟩ := (h _ _).1 _ _ hclient
    rw [hrun] at hrun'
    cases hrun'
    exact hstop hconsumed
  · intro h sends arrivals
    have hsame : FirstReplyHalts server k (onNetwork c sends arrivals) := h
    have hstill : Quiet (onNetwork c sends arrivals) := hquiet
    constructor
    · intro reply c' hclient
      obtain ⟨payload, hrun, -⟩ := transact_of_client hclient
      exact ⟨payload, hrun, hsame.consumedStop hserver hstill hrun⟩
    · intro t reply t' hbackend htarget
      obtain ⟨payload, c', hrun, -⟩ := transact_of_target htarget
      rw [hbackend] at hrun
      exact ⟨payload, c', hrun, hsame.consumedStop hserver hstill hrun⟩

/-! ## Console output before the halt -/

/-- Answers every request with a line of console output and then a stop reply. -/
def consoleServer : Server :=
  fun _ => [{ payload := ascii "O68690a" }, { payload := ascii "T05" }]

private theorem console_wellFormed : consoleServer.WellFormed := by
  intro requests p hp
  obtain rfl | rfl : p = { payload := ascii "O68690a" } ∨ p = { payload := ascii "T05" } := by
    simpa [consoleServer] using hp
  all_goals
    refine ⟨acks_nil, ?_⟩
    unfold Framable
    decide

theorem runCall_iff_console :
    (∀ sends arrivals, ClientHalts consoleServer .cont (onNetwork {} sends arrivals) ∧
      TargetHalts consoleServer .cont (onNetwork {} sends arrivals)) ↔
      FirstReplyHalts consoleServer .cont {} :=
  runCall_iff console_wellFormed .cont acks_nil rfl

/-- `cont` succeeds on the line of output, while the stop reply stays in the
stream. -/
theorem cont_not_halted : consoleServer.WellFormed ∧ Quiet {} ∧
    ∃ c', GdbClient.cont consoleServer (onNetwork {} [] [.bytes 512]) =
        (.ok { kind := .output, output := ascii "68690a" }, c') ∧
      transact consoleServer reqContinue (onNetwork {} [] [.bytes 512]) =
        (.ok (ascii "O68690a"), c') ∧
      ¬ IsStopPayload (ascii "O68690a") ∧ c'.stream = frame (ascii "T05") ∧
      ¬ ClientHalts consoleServer .cont (onNetwork {} [] [.bytes 512]) := by
  have hrun : transact consoleServer reqContinue (onNetwork {} [] [.bytes 512]) =
      (.ok (ascii "O68690a"),
        { sock := { requests := [frame reqContinue] }, decoder := frame (ascii "T05") }) := by
    decide
  have hcont : GdbClient.cont consoleServer (onNetwork {} [] [.bytes 512]) =
      (.ok { kind := .output, output := ascii "68690a" },
        { sock := { requests := [frame reqContinue] }, decoder := frame (ascii "T05") }) := by
    rw [GdbClient.cont, hrun]
    decide
  refine ⟨console_wellFormed, acks_nil, _, hcont, hrun, by decide, by decide, fun h => ?_⟩
  obtain ⟨payload, hrun', hstop, -⟩ := h _ _ hcont
  rw [show RunCall.cont.request = reqContinue from rfl, hrun] at hrun'
  cases hrun'
  exact absurd hstop (by decide)

end Irida.GdbBackend
