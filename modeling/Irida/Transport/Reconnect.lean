import Irida.Proto.Residue
import Irida.Transport.Pairing

/-!
# A second connection

`disconnect` closes the socket, and `connect` opens another one; neither touches the decoder.  So
the bytes that it holds at that time come before those of the new connection, and `isolated_iff`
says when every payload is nevertheless one of the new connection: exactly if what the decoder
holds is harmless.

One direction follows the two streams through the buffer (`Provenance`).  For the other one a
server is given that completes the packet in the buffer, or the packets in the buffer
are taken one after the other while nothing arrives; the payload that comes out is longer than
what was received.
-/

namespace Irida.Transport

open Host Proto

/-- All the bytes that the server sends on some requests. -/
def sentBytes (server : Server) (requests : List Bytes) : Bytes :=
  (List.range requests.length).flatMap fun k => encodePackets (server (requests.take (k + 1)))

theorem sentBytes_concat (server : Server) (requests : List Bytes) (data : Bytes) :
    sentBytes server (requests ++ [data]) =
      sentBytes server requests ++ encodePackets (server (requests ++ [data])) := by
  unfold sentBytes
  rw [List.length_append, List.length_singleton, List.range_succ, List.flatMap_append,
    List.flatMap_singleton, List.take_of_length_le (by simp)]
  congr 1
  refine List.flatMap_congr fun k hk => ?_
  rw [List.take_append_of_le_length (List.mem_range.mp hk)]

namespace GdbClient

/-- The bytes received on the connection: those sent without those under way. -/
def Received (server : Server) (c : GdbClient) (received : Bytes) : Prop :=
  received ++ c.sock.inFlight = sentBytes server c.sock.requests

/-- The clients that a connection goes through that is made from a given client.  The handshake is
one of the transactions. -/
inductive Reconnected (server : Server) (start : GdbClient) : GdbClient → Prop
  | dial {sock : TcpClient} : sock.requests = [] → sock.inFlight = [] →
      Reconnected server start { start with sock := sock }
  | transact {c : GdbClient} (payload : Bytes) : Reconnected server start c →
      Reconnected server start (transact server payload c).2
  | disconnect {c : GdbClient} : Reconnected server start c → Reconnected server start c.disconnect

/-- The packet of a payload that was returned last is among the bytes received on the connection,
right before those in the decoder. -/
def Own (server : Server) (payload : Bytes) (c : GdbClient) : Prop :=
  ∃ received gone, ∃ p : RawPacket, Received server c received ∧
    received = gone ++ (p.bytes ++ c.decoder) ∧ p.accepted = some payload

/-- Every payload that is returned on a connection made from the client is one of that
connection. -/
def Isolated (start : GdbClient) : Prop :=
  ∀ server c, Reconnected server start c → ∀ request payload c',
    transact server request c = (.ok payload, c') → Own server payload c'

section

variable {server : Server} {start c : GdbClient} {received : Bytes}

/-! ## What is received -/

theorem Received.unique {received' : Bytes} (h : Received server c received)
    (h' : Received server c received') : received = received' :=
  List.append_cancel_right (h.trans h'.symm)

/-- The loop of `transact` keeps the two streams apart. -/
theorem receiveLoop_provenance {attempts : ℕ} (h : Received server c received)
    (hbuf : Provenance received c.decoder) :
    (∃ received', Received server (receiveLoop attempts c).2 received' ∧
        Provenance received' (receiveLoop attempts c).2.decoder) ∧
      ∀ payload, (receiveLoop attempts c).1 = .ok payload →
        Own server payload (receiveLoop attempts c).2 := by
  -- each attempt takes a payload from the decoder or adds what it receives
  induction attempts generalizing c received with
  | zero => exact ⟨⟨received, h, hbuf⟩, fun _ hok => by cases hok⟩
  | succ attempts ih =>
      obtain ⟨hrest, hown⟩ := hbuf.nextPayload
      unfold receiveLoop
      cases hnext : nextPayload c.decoder with
      | mk taken buf =>
          rw [hnext] at hrest hown
          cases taken with
          | some payload =>
              refine ⟨⟨received, h, hrest⟩, fun payload' hok => ?_⟩
              obtain rfl := Except.ok.inj hok
              obtain ⟨gone, p, hreceived, hgood⟩ := hown payload rfl
              exact ⟨received, gone, p, h, hreceived, hgood⟩
          | none =>
              dsimp only
              rcases c.sock.recv_cases 512 with
                ⟨e, sock, hrecv, hreq, hwire⟩ | ⟨bytes, sock, hrecv, hreq, hwire, -⟩
              · rw [hrecv]
                refine ⟨⟨received, ?_, hrest⟩, fun _ hok => by cases hok⟩
                rwa [Received, hreq, hwire]
              · rw [hrecv]
                have hmore : Received server { sock := sock, decoder := buf ++ bytes }
                    (received ++ bytes) := by
                  rwa [Received, hreq, List.append_assoc, ← hwire]
                exact ih hmore (hrest.feed bytes)

/-- A transaction keeps the two streams apart, and returns payloads of the new one. -/
theorem transact_provenance (request : Bytes) (h : Received server c received)
    (hbuf : Provenance received c.decoder) :
    (∃ received', Received server (transact server request c).2 received' ∧
        Provenance received' (transact server request c).2.decoder) ∧
      ∀ payload, (transact server request c).1 = .ok payload →
        Own server payload (transact server request c).2 := by
  unfold transact
  rcases c.sock.send_cases server (frame request) with
    ⟨e, sock, hsend, hreq, hwire⟩ | ⟨n, sock, hsend, hreq, hwire⟩
  · rw [hsend]
    refine ⟨⟨received, ?_, hbuf⟩, fun _ hok => by cases hok⟩
    rwa [Received, hreq, hwire]
  · rw [hsend]
    have hsent : Received server { c with sock := sock } received := by
      rw [Received, hreq, hwire, sentBytes_concat, ← List.append_assoc, show _ = _ from h]
    exact receiveLoop_provenance hsent hbuf

/-- Over a whole connection the two streams are kept apart. -/
theorem Reconnected.provenance (hstart : Harmless start.decoder) (h : Reconnected server start c) :
    ∃ received, Received server c received ∧ Provenance received c.decoder := by
  induction h with
  | @dial sock hreq hwire =>
      refine ⟨[], ?_, [], start.decoder, [], (List.append_nil _).symm, rfl, hstart, Or.inr rfl⟩
      rw [Received, hreq, hwire]
      rfl
  | transact payload _ ih =>
      obtain ⟨received, hreceived, hbuf⟩ := ih
      exact (transact_provenance payload hreceived hbuf).1
  | disconnect _ ih => exact ih

theorem isolated_of_harmless (hstart : Harmless start.decoder) : Isolated start := by
  intro server c hc request payload c' hrun
  obtain ⟨received, hreceived, hbuf⟩ := hc.provenance hstart
  have hown := (transact_provenance request hreceived hbuf).2 payload (by rw [hrun])
  rwa [hrun] at hown

/-! ## A payload of the old stream -/

theorem not_own_of_length {payload : Bytes} (h : Received server c received)
    (hlen : received.length ≤ 3) : ¬ Own server payload c := by
  rintro ⟨received', gone, p, hreceived, hsplit, -⟩
  have hbytes := congrArg List.length (h.unique hreceived)
  rw [hsplit, RawPacket.bytes] at hbytes
  simp only [List.length_append, List.length_cons, List.length_nil] at hbytes
  omega

/-- The server that answers every request with the same bytes first. -/
def opening (completion : Bytes) : Server :=
  fun _ => [{ acks := completion, payload := [] }]

/-- A socket that is open, and on which nothing was received so far. -/
structure Unheard (server : Server) (c : GdbClient) (arrivals : List Arrival) : Prop where
  connected : c.sock.connected = true
  sends : c.sock.sends = []
  arrivals_eq : c.sock.arrivals = arrivals
  received : Received server c []

/-- The client after a request has been sent. -/
def afterSend (server : Server) (request : Bytes) (c : GdbClient) : GdbClient :=
  { c with
    sock := { c.sock with
      sends := []
      requests := c.sock.requests ++ [frame request]
      inFlight := c.sock.inFlight ++ encodePackets (server (c.sock.requests ++ [frame request])) } }

theorem Unheard.send {arrivals : List Arrival} (h : Unheard server c arrivals) (request : Bytes) :
    transact server request c = receiveLoop 64 (afterSend server request c) ∧
      Unheard server (afterSend server request c) arrivals := by
  have hsend : c.sock.send server (frame request) =
      (.ok (frame request).length, (afterSend server request c).sock) := by
    unfold TcpClient.send
    rw [if_neg (by simp [h.connected])]
    simp [h.sends, afterSend]
  constructor
  · unfold transact
    rw [hsend]
    rfl
  · refine ⟨h.connected, rfl, h.arrivals_eq, ?_⟩
    have hreceived := h.received
    unfold Received at hreceived ⊢
    rw [afterSend, sentBytes_concat, ← hreceived]
    rfl

theorem Unheard.timeout {arrivals : List Arrival} {buf : Bytes}
    (h : Unheard server c (.bytes 0 :: arrivals)) (request : Bytes)
    (hnext : nextPayload c.decoder = (none, buf)) :
    (transact server request c).2.decoder = buf ∧
      Unheard server (transact server request c).2 arrivals := by
  obtain ⟨hrun, hsent⟩ := h.send request
  have hnext : nextPayload (afterSend server request c).decoder = (none, buf) := hnext
  rw [hrun]
  generalize afterSend server request c = sent at hsent hnext
  obtain ⟨hconn, hsends, harrivals, hreceived⟩ := hsent
  have hrecv : sent.sock.recv 512 =
      (.error "recv() failed or timed out", { sent.sock with arrivals := arrivals }) := by
    unfold TcpClient.recv
    rw [if_neg (by simp [hconn]), harrivals]
    simp
  rw [receiveLoop, hnext]
  simp only [hrecv]
  exact ⟨trivial, hconn, hsends, rfl, hreceived⟩

theorem Unheard.stale {arrivals : List Arrival} {payload buf : Bytes}
    (h : Unheard server c arrivals) (request : Bytes)
    (hnext : nextPayload c.decoder = (some payload, buf)) :
    ∃ payload c', transact server request c = (.ok payload, c') ∧ ¬ Own server payload c' := by
  obtain ⟨hrun, hsent⟩ := h.send request
  have hnext : nextPayload (afterSend server request c).decoder = (some payload, buf) := hnext
  rw [hrun]
  generalize afterSend server request c = sent at hsent hnext
  rw [receiveLoop, hnext]
  have hreceived : Received server { sent with decoder := buf } [] := hsent.received
  exact ⟨payload, _, rfl, not_own_of_length hreceived (Nat.zero_le 3)⟩

theorem sentBytes_opening (completion : Bytes) (requests : List Bytes) (data : Bytes) :
    ∃ more, sentBytes (opening completion) (requests ++ [data]) = completion ++ more := by
  unfold sentBytes
  rw [List.length_append, List.length_singleton, List.range_succ_eq_map, List.flatMap_cons]
  have hfirst : encodePackets (opening completion ((requests ++ [data]).take (0 + 1))) =
      completion ++ frame [] := List.append_nil _
  rw [hfirst, List.append_assoc]
  exact ⟨_, rfl⟩

theorem Unheard.completed {completion : Bytes} (hlen : completion.length ≤ 3)
    (hne : completion ≠ []) (h : Unheard (opening completion) c [.bytes completion.length])
    (request : Bytes) {buf : Bytes} (hnext : nextPayload c.decoder = (none, buf))
    (hsome : (nextPayload (buf ++ completion)).1.isSome) :
    ∃ payload c', transact (opening completion) request c = (.ok payload, c') ∧
      ¬ Own (opening completion) payload c' := by
  obtain ⟨hrun, hsent⟩ := h.send request
  obtain ⟨more, hmore⟩ := sentBytes_opening completion c.sock.requests (frame request)
  have hwire : (afterSend (opening completion) request c).sock.inFlight = completion ++ more :=
    hsent.received.trans hmore
  have hnext : nextPayload (afterSend (opening completion) request c).decoder = (none, buf) := hnext
  rw [hrun]
  generalize afterSend (opening completion) request c = sent at hsent hnext hwire
  obtain ⟨hconn, -, harrivals, hreceived⟩ := hsent
  have hpos := List.length_pos_iff.mpr hne
  -- the attempt receives the completion, and no more
  have hcount : min (min completion.length 512) sent.sock.inFlight.length = completion.length := by
    rw [hwire, List.length_append]
    omega
  have hrecv := @TcpClient.recv_bytes 512 _ _ _ hconn harrivals (by rw [hcount]; exact hpos)
  rw [hcount, hwire, List.take_left, List.drop_left] at hrecv
  obtain ⟨payload, hpayload⟩ := Option.isSome_iff_exists.mp hsome
  rw [receiveLoop, hnext]
  simp only [hrecv]
  rw [receiveLoop]
  cases hlast : nextPayload (buf ++ completion) with
  | mk taken buf' =>
      rw [hlast] at hpayload
      obtain rfl : taken = some payload := hpayload
      have hgot : Received (opening completion)
          { sock := { sent.sock with arrivals := [], inFlight := more }, decoder := buf' }
          completion := by
        rw [Received, ← hwire, ← List.nil_append sent.sock.inFlight]
        exact hreceived
      exact ⟨payload, _, rfl, not_own_of_length hgot hlen⟩

/-- From a buffer that is not harmless a payload comes that is not one of the connection: the
packets in it are taken one after the other while nothing arrives, and then the completion does. -/
theorem exists_not_own {completion : Bytes} (hlen : completion.length ≤ 3)
    (hne : completion ≠ []) {buf : Bytes} (hbuf : ¬ Harmless buf)
    (hcompletes : Completable (packetScanner.after .outside buf) → ∃ p,
      packetScanner.found (packetScanner.after .outside buf) completion = [p] ∧
        p.accepted.isSome) :
    ∃ arrivals, ∀ c, c.decoder = buf → Unheard (opening completion) c arrivals →
      Reconnected (opening completion) start c → ¬ Isolated start := by
  induction hn : (packets buf).length generalizing buf with
  | zero =>
      have hpackets := List.length_eq_zero_iff.mp hn
      have hopen : Completable (packetScanner.after .outside buf) := by
        by_contra hopen
        exact hbuf ⟨by simp [hpackets], hopen⟩
      obtain ⟨p, hfound, hgood⟩ := hcompletes hopen
      obtain ⟨hnone, hsome⟩ := nextPayload_completion hpackets hgood hfound
      refine ⟨[.bytes completion.length], fun c hc hunheard hreach hisolated => ?_⟩
      subst hc
      obtain ⟨payload, c', hrun, hnot⟩ :=
        hunheard.completed hlen hne [] (Prod.ext hnone rfl) hsome
      exact hnot (hisolated _ _ hreach _ _ _ hrun)
  | succ n ih =>
      cases hnext : nextPayload buf with
      | mk taken buf' =>
          cases taken with
          | some payload =>
              refine ⟨[], fun c hc hunheard hreach hisolated => ?_⟩
              subst hc
              obtain ⟨payload, c', hrun, hnot⟩ := hunheard.stale [] hnext
              exact hnot (hisolated _ _ hreach _ _ _ hrun)
          | none =>
              -- the first packet fails its checksum, and the call times out
              obtain ⟨p, rest, hpackets⟩ := List.exists_cons_of_length_eq_add_one hn
              have hlast : packetScanner.after .outside (nextPayload buf).2 =
                  packetScanner.after .outside buf := takes_nextPayload.after_take buf
              have hrest := (nextPayload_of_packets hpackets).2
              have hbuf' := not_harmless_nextPayload hbuf (by rw [hnext])
              rw [hnext] at hlast hrest hbuf'
              rw [hpackets, List.length_cons, Nat.add_right_cancel_iff, ← hrest] at hn
              obtain ⟨arrivals, harrivals⟩ := ih hbuf' (by rw [hlast]; exact hcompletes) hn
              refine ⟨.bytes 0 :: arrivals, fun c hc hunheard hreach => ?_⟩
              subst hc
              obtain ⟨hdecoder, hlater⟩ := hunheard.timeout [] hnext
              exact harrivals _ hdecoder hlater (hreach.transact [])

theorem harmless_of_isolated (h : Isolated start) : Harmless start.decoder := by
  by_contra hbuf
  obtain ⟨completion, hne, hlen, hcompletes⟩ : ∃ completion : Bytes,
      completion ≠ [] ∧ completion.length ≤ 3 ∧
        (Completable (packetScanner.after .outside start.decoder) → ∃ p,
          packetScanner.found (packetScanner.after .outside start.decoder) completion = [p] ∧
            p.accepted.isSome) := by
    by_cases hopen : Completable (packetScanner.after .outside start.decoder)
    · obtain ⟨completion, hne, hlen, hp⟩ := exists_completion hopen
      exact ⟨completion, hne, hlen, fun _ => hp⟩
    · exact ⟨[0], by simp, by simp, fun hopen' => absurd hopen' hopen⟩
  obtain ⟨arrivals, hnot⟩ := @exists_not_own start completion hlen hne _ hbuf hcompletes
  exact hnot { start with sock := { arrivals := arrivals } } rfl ⟨rfl, rfl, rfl, rfl⟩
    (.dial rfl rfl) h

end

/-- **A connection is isolated from what was before it** exactly if the decoder holds nothing that
a payload can come from. -/
theorem isolated_iff (start : GdbClient) : Isolated start ↔ Harmless start.decoder :=
  ⟨harmless_of_isolated, isolated_of_harmless⟩

/-! ## A reply that is still in the decoder -/

/-- Answers every request with `OK` and with a stop reply behind it. -/
def chattyServer : Server :=
  fun _ => [{ acks := ascii "+", payload := ascii "OK" }, { payload := ascii "T05" }]

private theorem chatty_wellFormed : chattyServer.WellFormed := by
  intro requests p hp
  rcases List.mem_cons.mp hp with rfl | hp
  · exact ⟨show ∀ c ∈ ascii "+", isAck c = true by decide, by unfold Framable; decide⟩
  · obtain rfl := List.mem_singleton.mp hp
    exact ⟨show ∀ c ∈ ([] : Bytes), isAck c = true by decide, by unfold Framable; decide⟩

/-- The handshake takes the first of two packets, the second one is still there when the client
disconnects, and the handshake of the next connection returns it before anything arrives. -/
theorem not_isolated : chattyServer.WellFormed ∧
    ∃ c history, Run chattyServer (fun _ => True) c history ∧ ¬ Isolated c.disconnect := by
  refine ⟨chatty_wellFormed, _, _, @Run.connect _ _ { arrivals := [.bytes 512] } rfl rfl, ?_⟩
  intro h
  have hrun := h chattyServer _ (@Reconnected.dial _ _ {} rfl rfl) reqQsupported (ascii "T05")
    _ (Prod.ext (by decide) rfl)
  have hempty : ∀ c : GdbClient, c.sock.inFlight = sentBytes chattyServer c.sock.requests →
      Received chattyServer c [] := fun c hc => hc
  exact not_own_of_length (hempty _ (by decide)) (Nat.zero_le 3) hrun

end GdbClient

end Irida.Transport
