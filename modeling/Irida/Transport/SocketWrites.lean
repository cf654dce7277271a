import Irida.Transport.GdbClient

/-!
# Writes of the socket

`TcpClient` and `GdbClient` over the calls of Winsock.  A call of `::send` may take only a part of
the bytes that it is offered, and says how many.  `TcpClient::send` passes the number on, and
`transact` takes no notice of it.

`sentWhole_iff` says that a request has been handed over whole when the client waits for the reply
if and only if the one call of `::send` takes the whole frame.  The peer of `Irida.Host.Tcp` is a
socket whose calls do (`transact_peer`).
-/

namespace Irida.Transport

open Host Proto

/-- The calls of Winsock on a socket, over the state of the connection.  `send` is given the length
as an `int`.  An error is none, and a closed connection is received as no bytes. -/
structure Winsock (τ : Type*) where
  send : Bytes → ℤ → τ → Option ℕ × τ
  recv : ℕ → τ → Option Bytes × τ
  /-- the bytes that have been taken since the connection was made -/
  handed : τ → Bytes

/-- `send` takes bytes off the front of what it is offered, not more than the length, and `recv`
takes none. -/
structure Winsock.Faithful {τ : Type*} (ws : Winsock τ) : Prop where
  send_ok : ∀ {data len s n s'}, ws.send data len s = (some n, s') →
    (n : ℤ) ≤ len ∧ ws.handed s' = ws.handed s ++ data.take n
  recv : ∀ size s, ws.handed (ws.recv size s).2 = ws.handed s

/-- `TcpClient`: whether there is a socket, and the state of its connection. -/
structure TcpSocket (τ : Type*) where
  connected : Bool
  os : τ

/-- `GdbClient`, over such a socket. -/
structure SocketClient (τ : Type*) where
  sock : TcpSocket τ
  decoder : Bytes := []

section

variable {τ : Type*} (ws : Winsock τ)

/-- `TcpClient::send`. -/
def TcpSocket.send (data : Bytes) (s : TcpSocket τ) : Result ℕ × TcpSocket τ :=
  if s.connected = false then (.error "send: not connected", s)
  else
    match ws.send data (asInt data.length) s.os with
    | (none, os) => (.error "send() failed", { s with os := os })
    | (some n, os) => (.ok n, { s with os := os })

/-- `TcpClient::recv`. -/
def TcpSocket.recv (size : ℕ) (s : TcpSocket τ) : Result Bytes × TcpSocket τ :=
  if s.connected = false then (.error "recv: not connected", s)
  else
    match ws.recv size s.os with
    | (none, os) => (.error "recv() failed or timed out", { s with os := os })
    | (some bytes, os) =>
      if bytes = [] then (.error "recv: connection closed", { s with os := os })
      else (.ok bytes, { s with os := os })

namespace SocketClient

/-- The first half of `transact`.  The number of bytes that were sent is dropped. -/
def sendRequest (payload : Bytes) (c : SocketClient τ) : Result Unit × SocketClient τ :=
  match c.sock.send ws (frame payload) with
  | (.error e, sock) => (.error e, { c with sock := sock })
  | (.ok _, sock) => (.ok (), { c with sock := sock })

/-- The loop of `transact`, for a number of attempts. -/
def awaitReply : ℕ → SocketClient τ → Result Bytes × SocketClient τ
  | 0, c => (.error "transact: no reply within attempt budget", c)
  | attempts + 1, c =>
    match nextPayload c.decoder with
    | (some p, buf) => (.ok p, { c with decoder := buf })
    | (none, buf) =>
      match c.sock.recv ws 512 with
      | (.error e, sock) => (.error e, { sock := sock, decoder := buf })
      | (.ok bytes, sock) => awaitReply attempts { sock := sock, decoder := buf ++ bytes }

/-- `transact`. -/
def transact (payload : Bytes) (c : SocketClient τ) : Result Bytes × SocketClient τ :=
  match sendRequest ws payload c with
  | (.error e, c) => (.error e, c)
  | (.ok _, c) => awaitReply ws 64 c

/-- When the client waits for the reply, the socket has been handed the whole frame. -/
def SentWhole (payload : Bytes) (c : SocketClient τ) : Prop :=
  ∀ c', sendRequest ws payload c = (.ok (), c') →
    ws.handed c'.sock.os = ws.handed c.sock.os ++ frame payload

/-- The call of `::send`, if there is one and it does not fail, takes the whole frame. -/
def TakesWhole (payload : Bytes) (c : SocketClient τ) : Prop :=
  c.sock.connected = true → ∀ n,
    (ws.send (frame payload) (asInt (frame payload).length) c.sock.os).1 = some n →
      n = (frame payload).length

end SocketClient

/-! ## What a request hands over -/

variable {ws}

theorem Winsock.Faithful.le_length (hws : ws.Faithful) {data : Bytes} {s s' : τ} {n : ℕ}
    (h : ws.send data (asInt data.length) s = (some n, s')) : n ≤ data.length := by
  have hle := (hws.send_ok h).1
  by_cases hlen : data.length < 2 ^ 31
  · rw [asInt_of_lt hlen] at hle
    exact_mod_cast hle
  · have hlt := asInt_lt data.length
    omega

/-- A client that waits for the reply has handed over the bytes that were taken. -/
theorem SocketClient.sendRequest_ok (hws : ws.Faithful) {payload : Bytes} {c c' : SocketClient τ}
    (h : c.sendRequest ws payload = (.ok (), c')) :
    c.sock.connected = true ∧ ∃ n ≤ (frame payload).length,
      (ws.send (frame payload) (asInt (frame payload).length) c.sock.os).1 = some n ∧
        ws.handed c'.sock.os = ws.handed c.sock.os ++ (frame payload).take n := by
  unfold sendRequest TcpSocket.send at h
  by_cases hconn : c.sock.connected = false
  · rw [if_pos hconn] at h
    cases h
  · rw [if_neg hconn] at h
    cases hsend : ws.send (frame payload) (asInt (frame payload).length) c.sock.os with
    | mk taken os =>
        rw [hsend] at h
        cases taken with
        | none => cases h
        | some n =>
            cases h
            exact ⟨by simpa using hconn, n, hws.le_length hsend, rfl, (hws.send_ok hsend).2⟩

theorem SocketClient.handed_awaitReply (hws : ws.Faithful) (attempts : ℕ) (c : SocketClient τ) :
    ws.handed (c.awaitReply ws attempts).2.sock.os = ws.handed c.sock.os := by
  have hrecv : ∀ sock : TcpSocket τ, ws.handed (sock.recv ws 512).2.os = ws.handed sock.os := by
    intro sock
    have hos := hws.recv 512 sock.os
    unfold TcpSocket.recv
    split
    · rfl
    · cases hres : ws.recv 512 sock.os with
      | mk got os =>
          rw [hres] at hos
          cases got with
          | none => exact hos
          | some bytes =>
              dsimp only
              split <;> exact hos
  induction attempts generalizing c with
  | zero => rfl
  | succ attempts ih =>
      unfold awaitReply
      split
      · rfl
      · have hos := hrecv c.sock
        cases hres : c.sock.recv ws 512 with
        | mk got sock =>
            rw [hres] at hos
            cases got with
            | error e => exact hos
            | ok bytes => exact (ih _).trans hos

/-- **A request is handed over whole** if and only if the socket takes the whole frame at once. -/
theorem SocketClient.sentWhole_iff (hws : ws.Faithful) (payload : Bytes) (c : SocketClient τ) :
    c.SentWhole ws payload ↔ c.TakesWhole ws payload := by
  constructor
  · intro h hconn n hn
    cases hsend : ws.send (frame payload) (asInt (frame payload).length) c.sock.os with
    | mk taken os =>
        rw [hsend] at hn
        obtain rfl : taken = some n := hn
        have hok : c.sendRequest ws payload =
            (.ok (), { c with sock := { c.sock with os := os } }) := by
          simp [sendRequest, TcpSocket.send, hconn, hsend]
        have hhanded := (hws.send_ok hsend).2.symm.trans (h _ hok)
        have hlength := congrArg List.length (List.append_cancel_left hhanded)
        rw [List.length_take] at hlength
        have hle := hws.le_length hsend
        omega
  · intro h c' hok
    obtain ⟨hconn, n, -, hn, hhanded⟩ := sendRequest_ok hws hok
    rw [hhanded, h hconn n hn, List.take_length]

/-- When `transact` returns, the socket has been handed what it had when the wait began. -/
theorem SocketClient.handed_transact (hws : ws.Faithful) {payload : Bytes} {c c' : SocketClient τ}
    (h : c.sendRequest ws payload = (.ok (), c')) :
    ws.handed (c.transact ws payload).2.sock.os = ws.handed c'.sock.os := by
  unfold transact
  rw [h]
  exact handed_awaitReply hws 64 c'

end

/-! ## A socket that takes what a schedule says -/

/-- A connection with the outcomes of the next calls of `::send`, each an error or a number of bytes
that there is room for, and what the next calls of `::recv` find. -/
structure Schedule where
  room : List (Option ℕ) := []
  replies : List Bytes := []
  handed : Bytes := []

/-- The calls on such a connection. -/
def scheduled : Winsock Schedule where
  send data len s :=
    match s.room with
    | some n :: room =>
      if len < 0 then (none, { s with room := room })
      else
        let n := min n len.toNat
        (some n, { s with room := room, handed := s.handed ++ data.take n })
    | _ => (none, { s with room := s.room.tail })
  recv size s :=
    match s.replies with
    | [] => (none, s)
    | bytes :: replies => (some (bytes.take size), { s with replies := replies })
  handed s := s.handed

theorem faithful_scheduled : scheduled.Faithful where
  send_ok {data len s n s'} h := by
    simp only [scheduled] at h ⊢
    split at h
    · split at h
      · cases h
      · cases h
        exact ⟨by omega, rfl⟩
    · cases h
  recv size s := by
    simp only [scheduled]
    split <;> rfl

/-- The request for the registers, and a socket that takes it whole. -/
theorem sentWhole_registers :
    SocketClient.SentWhole scheduled reqReadRegisters
      { sock := { connected := true, os := { room := [some 512] } } } := by
  refine (SocketClient.sentWhole_iff faithful_scheduled reqReadRegisters _).mpr fun _ n hn => ?_
  obtain rfl : 5 = n := Option.some.inj hn
  decide

/-- A socket that takes four of the five bytes of the request.  The client waits for the reply all
the same. -/
theorem not_sentWhole_registers :
    (SocketClient.sendRequest scheduled reqReadRegisters
        { sock := { connected := true, os := { room := [some 4] } } }).1 = .ok () ∧
      ¬ SocketClient.SentWhole scheduled reqReadRegisters
        { sock := { connected := true, os := { room := [some 4] } } } := by
  refine ⟨rfl, fun h => ?_⟩
  have hhanded := h _ rfl
  revert hhanded
  decide

/-! ## The socket of the peer -/

/-- The calls on a connection to a peer: each `send` that succeeds takes everything. -/
def peerSocket (server : Server) : Winsock TcpClient where
  send data _ s :=
    match s.send server data with
    | (.ok n, s) => (some n, s)
    | (.error _, s) => (none, s)
  recv size s :=
    match s.recv size with
    | (.ok bytes, s) => (some bytes, s)
    | (.error e, s) => (if e = "recv: connection closed" then some [] else none, s)
  handed s := s.requests.flatten

/-- The client of a peer, over its socket. -/
def ofClient (c : GdbClient) : SocketClient TcpClient :=
  { sock := { connected := c.sock.connected, os := c.sock }, decoder := c.decoder }

section Peer

variable {server : Server}

theorem send_peer (data : Bytes) (s : TcpClient) :
    TcpSocket.send (peerSocket server) data { connected := s.connected, os := s } =
      ((s.send server data).1,
        { connected := (s.send server data).2.connected, os := (s.send server data).2 }) := by
  by_cases hconn : s.connected = false
  · simp [TcpSocket.send, TcpClient.send, hconn]
  · rcases hsends : s.sends with _ | ⟨ok, sends⟩
    · simp [TcpSocket.send, peerSocket, TcpClient.send, hconn, hsends]
    · cases ok <;> simp [TcpSocket.send, peerSocket, TcpClient.send, hconn, hsends]

theorem recv_connected (size : ℕ) {s : TcpClient} (hconn : s.connected = true) :
    ∃ s', s'.connected = true ∧
      (s.recv size = (.error "recv() failed or timed out", s') ∨
        s.recv size = (.error "recv: connection closed", s') ∨
        ∃ bytes ≠ [], s.recv size = (.ok bytes, s')) := by
  unfold TcpClient.recv
  rw [if_neg (by simp [hconn])]
  split
  · exact ⟨s, hconn, Or.inl rfl⟩
  · refine ⟨_, ?_, Or.inr (Or.inl rfl)⟩
    exact hconn
  · dsimp only
    split
    · refine ⟨_, ?_, Or.inl rfl⟩
      exact hconn
    · refine ⟨_, ?_, Or.inr (Or.inr ⟨_, ?_, rfl⟩)⟩
      · exact hconn
      · rw [ne_eq, ← List.length_eq_zero_iff, List.length_take]
        omega

theorem recv_peer (size : ℕ) (s : TcpClient) :
    TcpSocket.recv (peerSocket server) size { connected := s.connected, os := s } =
      ((s.recv size).1, { connected := (s.recv size).2.connected, os := (s.recv size).2 }) := by
  by_cases hconn : s.connected = false
  · simp [TcpSocket.recv, TcpClient.recv, hconn]
  · have hconn : s.connected = true := by simpa using hconn
    obtain ⟨s', hconn', hrecv | hrecv | ⟨bytes, hne, hrecv⟩⟩ := recv_connected size hconn
    · simp [TcpSocket.recv, peerSocket, hconn, hconn', hrecv]
    · simp [TcpSocket.recv, peerSocket, hconn, hconn', hrecv]
    · simp [TcpSocket.recv, peerSocket, hconn, hconn', hrecv, hne]

theorem awaitReply_peer (attempts : ℕ) (c : GdbClient) :
    (ofClient c).awaitReply (peerSocket server) attempts =
      ((c.receiveLoop attempts).1, ofClient (c.receiveLoop attempts).2) := by
  induction attempts generalizing c with
  | zero => rfl
  | succ attempts ih =>
      unfold SocketClient.awaitReply GdbClient.receiveLoop
      rw [show (ofClient c).decoder = c.decoder from rfl]
      cases hnext : nextPayload c.decoder with
      | mk payload buf =>
          cases payload with
          | some payload => rfl
          | none =>
              dsimp only
              rw [show (ofClient c).sock = { connected := c.sock.connected, os := c.sock } from rfl,
                recv_peer]
              cases hrecv : c.sock.recv 512 with
              | mk got sock =>
                  cases got with
                  | error e => rfl
                  | ok bytes => exact ih { sock := sock, decoder := buf ++ bytes }

/-- **The client of a peer is the client over a socket that takes everything at once.** -/
theorem transact_peer (payload : Bytes) (c : GdbClient) :
    (ofClient c).transact (peerSocket server) payload =
      ((c.transact server payload).1, ofClient (c.transact server payload).2) := by
  unfold SocketClient.transact SocketClient.sendRequest GdbClient.transact
  rw [show (ofClient c).sock = { connected := c.sock.connected, os := c.sock } from rfl, send_peer]
  cases hsend : c.sock.send server (frame payload) with
  | mk sent sock =>
      cases sent with
      | error e => rfl
      | ok n => exact awaitReply_peer 64 { c with sock := sock }

end Peer

end Irida.Transport
