import Irida.Transport.GdbClient

/-!
# How many pieces a reply may come in

The loop of `transact` makes 64 attempts.  Each of them asks the decoder first and receives
second, so what the last one receives is never decoded.  A reply that arrives in `n` chunks needs
`n + 1` attempts (`receiveLoop_chunks`, `receiveLoop_late`): it is returned if `n ≤ 63`, and
otherwise the call fails and leaves in the decoder what it has received.  A reply in exactly 64
chunks is left there as a whole, and is what the next call returns (`transact_leftBehind`).

`outcomes_iff` is about a run of calls, each of which is answered by one packet: every call
returns its own reply, and leaves nothing in the decoder, exactly if every reply arrives in at most
63 chunks.
-/

namespace Irida.Transport.GdbClient

open Host Proto

/-! ## A reply in chunks -/

/-- A request, the reply to it, and the chunks in which the reply arrives: an ack and the frame of
the payload, divided in any way that a call of `recv` can return. -/
structure Delivery where
  request : Bytes
  payload : Bytes
  chunks : List Bytes
  framable : Framable payload
  flatten_chunks : chunks.flatten = byte '+' :: frame payload
  chunk_size : ∀ chunk ∈ chunks, chunk ≠ [] ∧ chunk.length ≤ 512

/-- What the next calls of `recv` find. -/
def chunkArrivals (chunks : List Bytes) : List Arrival :=
  chunks.map fun chunk => .bytes chunk.length

namespace Delivery

/-- The packet that the server sends. -/
def packet (d : Delivery) : Packet :=
  { acks := [byte '+'], payload := d.payload }

/-- The arrivals of the reply. -/
def arrivals (d : Delivery) : List Arrival :=
  chunkArrivals d.chunks

theorem encodePackets_packet (d : Delivery) : encodePackets [d.packet] = d.chunks.flatten := by
  rw [d.flatten_chunks]
  simp [encodePackets, Packet.encode, packet]

end Delivery

private theorem acks_plus : Acks [byte '+'] := by
  intro c hc
  rw [List.mem_singleton.mp hc]
  rfl

/-! ## The loop of `transact` -/

section Loop

variable {c : GdbClient} {acks payload : Bytes} {chunks : List Bytes} {later : List Arrival}

/-- The client while the chunks of a reply arrive. -/
structure Receiving (c : GdbClient) (acks payload : Bytes) (chunks : List Bytes)
    (later : List Arrival) : Prop where
  connected : c.sock.connected = true
  onlyAcks : Acks acks
  decoded : c.decoder ++ chunks.flatten = acks ++ frame payload
  wire : c.sock.inFlight = chunks.flatten
  arrivals : c.sock.arrivals = chunkArrivals chunks ++ later

/-- **One attempt** receives one chunk. -/
theorem Receiving.attempt {chunk : Bytes} (h : Receiving c acks payload (chunk :: chunks) later)
    (hpayload : Framable payload) (hne : chunk ≠ []) (hsize : chunk.length ≤ 512) :
    ∃ acks' c', (∀ attempts, receiveLoop (attempts + 1) c = receiveLoop attempts c') ∧
      Receiving c' acks' payload chunks later ∧
      c'.sock = { c.sock with arrivals := c'.sock.arrivals, inFlight := c'.sock.inFlight } := by
  have hmissing : (chunk :: chunks).flatten ≠ [] := by
    rw [List.flatten_cons]
    exact List.append_ne_nil_of_left_ne_nil hne _
  have hwire : c.sock.inFlight = chunk ++ chunks.flatten := h.wire
  have hfound : min (min chunk.length 512) c.sock.inFlight.length = chunk.length := by
    rw [hwire, List.length_append]
    omega
  have harrivals : c.sock.arrivals = .bytes chunk.length :: (chunkArrivals chunks ++ later) :=
    h.arrivals
  have hpos : 0 < min (min chunk.length 512) c.sock.inFlight.length := by
    rw [hfound]
    exact List.length_pos_iff.mpr hne
  have hrecv := TcpClient.recv_bytes h.connected harrivals hpos
  rw [hfound, hwire, List.take_left, List.drop_left] at hrecv
  obtain ⟨acks', buf, hacks', hbuf, hloop⟩ :=
    receiveLoop_recv h.onlyAcks hpayload hmissing h.decoded hrecv
  have hdec : buf ++ chunk ++ chunks.flatten = acks' ++ frame payload := by
    rw [List.append_assoc]
    exact hbuf
  exact ⟨acks', _, hloop, ⟨h.connected, hacks', hdec, rfl, rfl⟩, rfl⟩

/-- With an attempt to spare for the decoder, the reply is returned and nothing is left of it. -/
theorem receiveLoop_chunks {attempts : ℕ} (h : Receiving c acks payload chunks later)
    (hpayload : Framable payload) (hsize : ∀ chunk ∈ chunks, chunk ≠ [] ∧ chunk.length ≤ 512)
    (hlen : chunks.length ≤ attempts) :
    receiveLoop (attempts + 1) c =
      (.ok payload,
        { sock := { c.sock with arrivals := later, inFlight := [] }, decoder := [] }) := by
  induction chunks generalizing attempts c acks with
  | nil =>
      have hdec : c.decoder = acks ++ (frame payload ++ []) := by
        simpa using h.decoded
      rw [receiveLoop_frame h.onlyAcks hpayload hdec]
      have hwire : c.sock.inFlight = [] := h.wire
      have harrivals : c.sock.arrivals = later := h.arrivals
      rw [← hwire, ← harrivals]
  | cons chunk chunks ih =>
      obtain ⟨⟨hne, hshort⟩, hrest⟩ := List.forall_mem_cons.mp hsize
      obtain ⟨attempts, rfl⟩ : ∃ n, attempts = n + 1 := ⟨attempts - 1, by
        rw [List.length_cons] at hlen
        omega⟩
      obtain ⟨acks', c', hloop, hnext, hsock⟩ := h.attempt hpayload hne hshort
      rw [hloop, ih hnext hrest (Nat.le_of_succ_le_succ hlen), hsock]

theorem receiveLoop_late {attempts : ℕ} (h : Receiving c acks payload chunks later)
    (hpayload : Framable payload) (hsize : ∀ chunk ∈ chunks, chunk ≠ [] ∧ chunk.length ≤ 512)
    (hlen : attempts ≤ chunks.length) :
    ∃ acks' c', receiveLoop attempts c =
        (.error "transact: no reply within attempt budget", c') ∧
      Receiving c' acks' payload (chunks.drop attempts) later ∧ c'.sock.sends = c.sock.sends := by
  induction attempts generalizing c acks chunks with
  | zero => exact ⟨acks, c, rfl, h, rfl⟩
  | succ attempts ih =>
      obtain ⟨chunk, chunks, rfl⟩ : ∃ chunk rest, chunks = chunk :: rest :=
        List.exists_cons_of_length_pos (by omega)
      obtain ⟨⟨hne, hshort⟩, hrest⟩ := List.forall_mem_cons.mp hsize
      obtain ⟨acks', c', hloop, hnext, hsock⟩ := h.attempt hpayload hne hshort
      obtain ⟨acks'', c'', hrun, hleft, hsends⟩ :=
        ih hnext hrest (Nat.le_of_succ_le_succ hlen)
      refine ⟨acks'', c'', by rw [hloop, hrun], hleft, ?_⟩
      rw [hsends, hsock]

end Loop

/-! ## One call -/

/-- A client between two calls: the connection works, and there is nothing to receive and nothing
to decode. -/
structure Ready (c : GdbClient) : Prop where
  connected : c.sock.connected = true
  sends : false ∉ c.sock.sends
  wire : c.sock.inFlight = []
  decoder : c.decoder = []

/-- The client when the request is sent. -/
def sent (server : Server) (request : Bytes) (c : GdbClient) : GdbClient :=
  { c with
    sock := { c.sock with
      sends := c.sock.sends.tail
      requests := c.sock.requests ++ [frame request]
      inFlight := c.sock.inFlight ++
        encodePackets (server (c.sock.requests ++ [frame request])) } }

/-- The client after a reply that was taken as a whole. -/
def replied (request : Bytes) (later : List Arrival) (c : GdbClient) : GdbClient :=
  { sock := { c.sock with
      sends := c.sock.sends.tail
      requests := c.sock.requests ++ [frame request]
      inFlight := []
      arrivals := later }
    decoder := [] }

section Call

variable {server : Server} {c : GdbClient} {d : Delivery} {later : List Arrival}

theorem transact_sent (hconn : c.sock.connected = true) (hsends : false ∉ c.sock.sends)
    (request : Bytes) : transact server request c = receiveLoop 64 (sent server request c) := by
  rw [transact, TcpClient.send_ok hconn hsends]
  rfl

theorem Ready.replied (h : Ready c) (request : Bytes) (later : List Arrival) :
    Ready (replied request later c) where
  connected := h.connected
  sends hfails := h.sends (List.mem_of_mem_tail hfails)
  wire := rfl
  decoder := rfl

theorem Ready.receiving (h : Ready c)
    (hanswer : server (c.sock.requests ++ [frame d.request]) = [d.packet])
    (harrivals : c.sock.arrivals = d.arrivals ++ later) :
    Receiving (sent server d.request c) [byte '+'] d.payload d.chunks later where
  connected := h.connected
  onlyAcks := acks_plus
  decoded := by
    show c.decoder ++ d.chunks.flatten = _
    rw [h.decoder, d.flatten_chunks]
    rfl
  wire := by
    show c.sock.inFlight ++ encodePackets _ = _
    rw [h.wire, hanswer, d.encodePackets_packet, List.nil_append]
  arrivals := harrivals

/-- A reply in at most 63 chunks is returned. -/
theorem transact_chunks (h : Ready c)
    (hanswer : server (c.sock.requests ++ [frame d.request]) = [d.packet])
    (harrivals : c.sock.arrivals = d.arrivals ++ later) (hlen : d.chunks.length ≤ 63) :
    transact server d.request c = (.ok d.payload, replied d.request later c) := by
  calc transact server d.request c
      = receiveLoop 64 (sent server d.request c) := transact_sent h.connected h.sends d.request
    _ = (.ok d.payload, replied d.request later c) :=
        receiveLoop_chunks (h.receiving hanswer harrivals) d.framable d.chunk_size hlen

theorem transact_late (h : Ready c)
    (hanswer : server (c.sock.requests ++ [frame d.request]) = [d.packet])
    (harrivals : c.sock.arrivals = d.arrivals ++ later) (hlen : 64 ≤ d.chunks.length) :
    ∃ acks' c', transact server d.request c =
        (.error "transact: no reply within attempt budget", c') ∧
      Receiving c' acks' d.payload (d.chunks.drop 64) later ∧ false ∉ c'.sock.sends := by
  rw [transact_sent h.connected h.sends]
  obtain ⟨acks', c', hloop, hleft, hsends⟩ :=
    receiveLoop_late (h.receiving hanswer harrivals) d.framable d.chunk_size hlen
  refine ⟨acks', c', hloop, hleft, fun hfails => h.sends ?_⟩
  rw [hsends] at hfails
  exact List.mem_of_mem_tail hfails

/-- **A reply in exactly 64 chunks is left behind**, and is what the next call returns, whatever
that call asks for and whatever the server answers. -/
theorem transact_leftBehind (h : Ready c)
    (hanswer : server (c.sock.requests ++ [frame d.request]) = [d.packet])
    (harrivals : c.sock.arrivals = d.arrivals ++ later) (hlen : d.chunks.length = 64) :
    ∃ c', transact server d.request c =
        (.error "transact: no reply within attempt budget", c') ∧
      ∀ request, (transact server request c').1 = .ok d.payload := by
  obtain ⟨acks', c', hlate, hleft, hsends⟩ := transact_late h hanswer harrivals hlen.ge
  refine ⟨c', hlate, fun request => ?_⟩
  have hdec : (sent server request c').decoder = acks' ++ (frame d.payload ++ []) := by
    have hdecoded := hleft.decoded
    rwa [← hlen, List.drop_length, List.flatten_nil, List.append_nil,
      ← List.append_nil (frame d.payload)] at hdecoded
  rw [transact_sent hleft.connected hsends, receiveLoop_frame hleft.onlyAcks d.framable hdec]

end Call

/-! ## A run of calls -/

/-- The server answers each request of the run with its one packet. -/
def Answers (server : Server) : List Bytes → List Delivery → Prop
  | _, [] => True
  | requests, d :: run =>
    server (requests ++ [frame d.request]) = [d.packet] ∧
      Answers server (requests ++ [frame d.request]) run

/-- What the calls of a run return, each with what the decoder holds after it. -/
def outcomes (server : Server) : List Bytes → GdbClient → List (Result Bytes × Bytes)
  | [], _ => []
  | request :: requests, c =>
    let (result, c) := transact server request c
    (result, c.decoder) :: outcomes server requests c

/-- **When every call returns its reply.**  Over every run of requests, each answered by one packet
that arrives in chunks: every call returns its own reply and leaves nothing in the decoder exactly
if every reply arrives in at most 63 chunks. -/
theorem outcomes_iff {server : Server} {c : GdbClient} {run : List Delivery} {later : List Arrival}
    (hready : Ready c) (hanswers : Answers server c.sock.requests run)
    (harrivals : c.sock.arrivals = run.flatMap Delivery.arrivals ++ later) :
    outcomes server (run.map Delivery.request) c = run.map (fun d => (.ok d.payload, [])) ↔
      ∀ d ∈ run, d.chunks.length ≤ 63 := by
  induction run generalizing c with
  | nil => exact iff_of_true rfl (List.forall_mem_nil _)
  | cons d run ih =>
      obtain ⟨hanswer, hrest⟩ := hanswers
      rw [List.flatMap_cons, List.append_assoc] at harrivals
      rw [List.forall_mem_cons, List.map_cons, List.map_cons, outcomes]
      by_cases hlen : d.chunks.length ≤ 63
      · -- this reply is taken, and the next call begins as this one did
        rw [transact_chunks hready hanswer harrivals hlen, and_iff_right hlen,
          ← ih (hready.replied d.request _) hrest rfl]
        exact List.cons_inj_right _
      · obtain ⟨acks', c', hlate, -⟩ :=
          transact_late hready hanswer harrivals (Nat.lt_of_not_le hlen)
        rw [hlate]
        refine iff_of_false (fun heq => ?_) (fun hall => hlen hall.1)
        cases (List.cons.inj heq).1

/-! ## A reply that arrives byte by byte -/

/-- The delivery in which every `recv` returns a single byte. -/
def byteByByte (request payload : Bytes) (framable : Framable payload) : Delivery where
  request := request
  payload := payload
  chunks := (byte '+' :: frame payload).map fun b => [b]
  framable := framable
  flatten_chunks := List.flatMap_singleton' _
  chunk_size chunk hchunk := by
    obtain ⟨b, -, rfl⟩ := List.mem_map.mp hchunk
    exact ⟨List.cons_ne_nil _ _, Nat.le_add_left 1 511⟩

theorem length_byteByByte (request payload : Bytes) (framable : Framable payload) :
    (byteByByte request payload framable).chunks.length = payload.length + 5 := by
  simp [byteByByte, frame]

private theorem framable_supported : Framable (List.replicate 59 (byte 'a')) :=
  fun hmem => absurd (List.eq_of_mem_replicate hmem) (by decide)

private theorem framable_stop : Framable (ascii "T05") := by
  unfold Framable
  decide

/-- A reply of 59 characters to the handshake, in 64 chunks. -/
def slowDelivery : Delivery :=
  byteByByte reqQsupported (List.replicate 59 (byte 'a')) framable_supported

/-- The reply to a step, in eight chunks. -/
def stopDelivery : Delivery :=
  byteByByte reqStep (ascii "T05") framable_stop

/-- Answers the first request with the slow reply and all others with the stop reply. -/
def slowServer : Server :=
  fun requests => if requests.length = 1 then [slowDelivery.packet] else [stopDelivery.packet]

/-- The client before a run. -/
def slowClient (run : List Delivery) : GdbClient :=
  { sock := { arrivals := run.flatMap Delivery.arrivals } }

private theorem ready_slowClient (run : List Delivery) : Ready (slowClient run) :=
  ⟨rfl, List.not_mem_nil, rfl, rfl⟩

theorem outcomes_iff_stop :
    outcomes (fun _ => [stopDelivery.packet]) [reqStep] (slowClient [stopDelivery]) =
      [(.ok (ascii "T05"), [])] ↔
      ∀ d ∈ [stopDelivery], d.chunks.length ≤ 63 := by
  have hanswers : Answers (fun _ => [stopDelivery.packet]) [] [stopDelivery] := ⟨rfl, trivial⟩
  exact outcomes_iff (ready_slowClient [stopDelivery]) hanswers (List.append_nil _).symm

/-- **The reply that completes with the last attempt is lost**, and is returned to the next
request. -/
theorem not_outcomes :
    slowDelivery.chunks.length = 64 ∧ Ready (slowClient [slowDelivery, stopDelivery]) ∧
    Answers slowServer [] [slowDelivery, stopDelivery] ∧
    (outcomes slowServer [reqQsupported, reqStep]
        (slowClient [slowDelivery, stopDelivery])).map Prod.fst =
      [.error "transact: no reply within attempt budget", .ok slowDelivery.payload] := by
  have hlen : slowDelivery.chunks.length = 64 := by
    rw [slowDelivery, length_byteByByte, List.length_replicate]
  refine ⟨hlen, ready_slowClient _, ⟨rfl, rfl, trivial⟩, ?_⟩
  obtain ⟨c', hlate, hnext⟩ := transact_leftBehind (ready_slowClient [slowDelivery, stopDelivery])
    (show slowServer [frame slowDelivery.request] = [slowDelivery.packet] from rfl) rfl hlen
  have hfirst : transact slowServer reqQsupported (slowClient [slowDelivery, stopDelivery]) =
      (.error "transact: no reply within attempt budget", c') := hlate
  simp only [outcomes, hfirst, List.map_cons, List.map_nil, hnext reqStep]

end Irida.Transport.GdbClient
