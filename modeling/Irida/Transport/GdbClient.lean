import Irida.Host.Tcp
import Irida.Proto.Packets

/-!
# The gdb-remote client

`gdb_client.cpp`.  Every operation is one `transact`: send a request, then read
until the decoder yields a payload.  Which payload that is depends on what was
under way before: `transact_spec` says that it is the first one of the payloads
that were still to come, followed by those that answer the request.
-/

namespace Irida.Transport

open Host Proto

/-- `GdbClient`. -/
structure GdbClient where
  sock : TcpClient := {}
  decoder : Bytes := []
  deriving DecidableEq, Repr

namespace GdbClient

section

variable (server : Server)

/-- The loop of `transact`, for a number of attempts. -/
def receiveLoop : ℕ → GdbClient → Result Bytes × GdbClient
  | 0, c => (.error "transact: no reply within attempt budget", c)
  | attempts + 1, c =>
    match nextPayload c.decoder with
    | (some p, buf) => (.ok p, { c with decoder := buf })
    | (none, buf) =>
      match c.sock.recv 512 with
      | (.error e, sock) => (.error e, { sock := sock, decoder := buf })
      | (.ok bytes, sock) => receiveLoop attempts { sock := sock, decoder := buf ++ bytes }

/-- `transact`. -/
def transact (payload : Bytes) (c : GdbClient) : Result Bytes × GdbClient :=
  match c.sock.send server (frame payload) with
  | (.error e, sock) => (.error e, { c with sock := sock })
  | (.ok _, sock) => receiveLoop 64 { c with sock := sock }

/-- `connect`, where `dial` is the outcome of the connection itself.  The reply
to the handshake is not required. -/
def connect (dial : Result TcpClient) (c : GdbClient) : Result Unit × GdbClient :=
  match dial with
  | .error e => (.error e, c)
  | .ok sock => (.ok (), (transact server reqQsupported { c with sock := sock }).2)

/-- `read_registers`. -/
def readRegisters (c : GdbClient) : Result Bytes × GdbClient :=
  match transact server reqReadRegisters c with
  | (.error e, c) => (.error e, c)
  | (.ok t, c) => (hexDecode t, c)

/-- `read_memory`. -/
def readMemory (addr len : U64) (c : GdbClient) : Result Bytes × GdbClient :=
  match transact server (reqReadMemory addr len) c with
  | (.error e, c) => (.error e, c)
  | (.ok t, c) =>
    match replyErrorCode t with
    | some e => (.error ("read_memory: target error E" ++ toString e), c)
    | none => (hexDecode t, c)

/-- `expect_ok`. -/
def expectOk (t : Result Bytes) (what : String) : Result Unit :=
  match t with
  | .error e => .error e
  | .ok t => if replyIsOk t then .ok () else .error (what ++ ": not OK (" ++ textOf t ++ ")")

/-- `write_memory`. -/
def writeMemory (addr : U64) (data : Bytes) (c : GdbClient) : Result Unit × GdbClient :=
  match transact server (reqWriteMemory addr data) c with
  | (r, c) => (expectOk r "write_memory", c)

/-- `set_breakpoint`. -/
def setBreakpoint (type : ℤ) (addr : U64) (kind : ℤ) (c : GdbClient) : Result Unit × GdbClient :=
  match transact server (reqSetBreakpoint type addr kind) c with
  | (r, c) => (expectOk r "set_breakpoint", c)

/-- `remove_breakpoint`. -/
def removeBreakpoint (type : ℤ) (addr : U64) (kind : ℤ) (c : GdbClient) :
    Result Unit × GdbClient :=
  match transact server (reqRemoveBreakpoint type addr kind) c with
  | (r, c) => (expectOk r "remove_breakpoint", c)

/-- `as_stop`. -/
def asStop (t : Result Bytes) : Result StopReply :=
  match t with
  | .error e => .error e
  | .ok t => .ok (parseStopReply t)

/-- `cont`. -/
def cont (c : GdbClient) : Result StopReply × GdbClient :=
  match transact server reqContinue c with
  | (r, c) => (asStop r, c)

/-- `step`. -/
def step (c : GdbClient) : Result StopReply × GdbClient :=
  match transact server reqStep c with
  | (r, c) => (asStop r, c)

/-- `halt_reason`. -/
def haltReason (c : GdbClient) : Result StopReply × GdbClient :=
  match transact server reqHaltReason c with
  | (r, c) => (asStop r, c)

/-- `disconnect`. -/
def disconnect (c : GdbClient) : GdbClient :=
  { c with sock := c.sock.close }

end

/-! ## What a transaction does to the stream -/

/-- The bytes that the client has not decoded yet, buffered or under way. -/
def stream (c : GdbClient) : Bytes :=
  c.decoder ++ c.sock.inFlight

/-- The payloads that answer a request. -/
def replies (server : Server) (payload : Bytes) (c : GdbClient) : List Bytes :=
  (server (c.sock.requests ++ [frame payload])).map Packet.payload

theorem encodes_encodePackets {stream : Bytes} {payloads : List Bytes}
    (h : Encodes stream payloads) {packets : List Packet}
    (hpackets : ∀ p ∈ packets, Acks p.acks ∧ Framable p.payload) :
    Encodes (stream ++ encodePackets packets) (payloads ++ packets.map Packet.payload) := by
  induction packets generalizing stream payloads with
  | nil => simpa [encodePackets] using h
  | cons p packets ih =>
      obtain ⟨⟨hacks, hpayload⟩, hrest⟩ := List.forall_mem_cons.mp hpackets
      have hnext := ih (h.append_packet hacks hpayload) hrest
      simpa [encodePackets, Packet.encode, List.append_assoc] using hnext

theorem receiveLoop_frame {attempts : ℕ} {c : GdbClient} {acks payload more : Bytes}
    (hacks : Acks acks) (hpayload : Framable payload)
    (hdec : c.decoder = acks ++ (frame payload ++ more)) :
    receiveLoop (attempts + 1) c = (.ok payload, { c with decoder := more }) := by
  rw [receiveLoop, hdec, nextPayload_frame hacks hpayload more]

section Missing

variable {c : GdbClient} {acks payload missing bytes : Bytes} {sock : TcpClient} {e : String}

theorem receiveLoop_recv (hacks : Acks acks) (hpayload : Framable payload)
    (hmissing : missing ≠ []) (hdec : c.decoder ++ missing = acks ++ frame payload)
    (hrecv : c.sock.recv 512 = (.ok bytes, sock)) :
    ∃ acks' buf, Acks acks' ∧ buf ++ missing = acks' ++ frame payload ∧
      ∀ attempts, receiveLoop (attempts + 1) c =
        receiveLoop attempts { sock := sock, decoder := buf ++ bytes } := by
  obtain ⟨acks', buf, hnone, hacks', hbuf⟩ := nextPayload_missing hacks hpayload hmissing hdec
  refine ⟨acks', buf, hacks', hbuf, fun attempts => ?_⟩
  rw [receiveLoop, hnone]
  dsimp only
  rw [hrecv]

theorem receiveLoop_recv_error (hacks : Acks acks) (hpayload : Framable payload)
    (hmissing : missing ≠ []) (hdec : c.decoder ++ missing = acks ++ frame payload)
    (hrecv : c.sock.recv 512 = (.error e, sock)) (attempts : ℕ) :
    ∃ c', receiveLoop (attempts + 1) c = (.error e, c') := by
  obtain ⟨_, buf, hnone, -, -⟩ := nextPayload_missing hacks hpayload hmissing hdec
  rw [receiveLoop, hnone]
  dsimp only
  rw [hrecv]
  exact ⟨_, rfl⟩

end Missing

/-- The loop takes the first payload of the stream, or fails and leaves the
stream what it was. -/
theorem receiveLoop_spec {attempts : ℕ} {c : GdbClient} {payloads : List Bytes}
    (h : Encodes c.stream payloads) :
    (∃ p payloads' c', receiveLoop attempts c = (.ok p, c') ∧ payloads = p :: payloads' ∧
        Encodes c'.stream payloads' ∧ c'.sock.requests = c.sock.requests) ∨
      (∃ e c', receiveLoop attempts c = (.error e, c') ∧ Encodes c'.stream payloads ∧
        c'.sock.requests = c.sock.requests) := by
  induction attempts generalizing c with
  | zero => exact Or.inr ⟨_, c, rfl, h, rfl⟩
  | succ attempts ih =>
      unfold receiveLoop
      rcases nextPayload_spec h with ⟨p, buf, payloads', hnext, rfl, hrest⟩ | ⟨buf, hnext, hrest⟩
      · rw [hnext]
        exact Or.inl ⟨p, payloads', _, rfl, rfl, hrest, rfl⟩
      · rw [hnext]
        rcases c.sock.recv_cases 512 with
          ⟨e, sock, hrecv, hreq, hwire⟩ | ⟨bytes, sock, hrecv, hreq, hwire, -⟩
        · rw [hrecv]
          exact Or.inr ⟨e, _, rfl, by rwa [stream, hwire], hreq⟩
        · rw [hrecv]
          have hstream : Encodes (stream { sock := sock, decoder := buf ++ bytes }) payloads := by
            rwa [stream, List.append_assoc, ← hwire]
          have hloop := ih hstream
          rwa [show sock.requests = c.sock.requests from hreq] at hloop

/-- **What a transaction returns**: nothing if the request is not sent, else the
first of the payloads that were still to come and those that answer it. -/
theorem transact_spec {server : Server} (hserver : server.WellFormed) (payload : Bytes)
    {c : GdbClient} {payloads : List Bytes} (h : Encodes c.stream payloads) :
    (∃ e c', transact server payload c = (.error e, c') ∧ Encodes c'.stream payloads ∧
        c'.sock.requests = c.sock.requests) ∨
      (∃ e c', transact server payload c = (.error e, c') ∧
        Encodes c'.stream (payloads ++ replies server payload c) ∧
        c'.sock.requests = c.sock.requests ++ [frame payload]) ∨
      (∃ p payloads' c', transact server payload c = (.ok p, c') ∧
        payloads ++ replies server payload c = p :: payloads' ∧ Encodes c'.stream payloads' ∧
        c'.sock.requests = c.sock.requests ++ [frame payload]) := by
  unfold transact
  rcases c.sock.send_cases server (frame payload) with
    ⟨e, sock, hsend, hreq, hwire⟩ | ⟨n, sock, hsend, hreq, hwire⟩
  · rw [hsend]
    exact Or.inl ⟨e, _, rfl, by rwa [stream, hwire], hreq⟩
  · rw [hsend]
    have hstream : Encodes (stream { c with sock := sock })
        (payloads ++ replies server payload c) := by
      rw [stream, hwire, ← List.append_assoc]
      exact encodes_encodePackets h (hserver _)
    rcases receiveLoop_spec hstream with
      ⟨p, payloads', c', hloop, heq, hrest, hreq'⟩ | ⟨e, c', hloop, hrest, hreq'⟩
    · exact Or.inr (Or.inr ⟨p, payloads', c', hloop, heq, hrest, hreq'.trans hreq⟩)
    · exact Or.inr (Or.inl ⟨e, c', hloop, hrest, hreq'.trans hreq⟩)

end GdbClient

end Irida.Transport
