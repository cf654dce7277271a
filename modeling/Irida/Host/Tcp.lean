import Irida.Proto.Frame

/-!
# The connection to a gdb server

`TcpClient` of `tcp.cpp`, together with the peer at the other end.  The peer
answers a request by sending packets, and the bytes that it sends arrive in order
but in arbitrary pieces and after arbitrary delays: `arrivals` says what has
arrived when each of the next `recv` calls is made, and `sends` which of the next
`send` calls succeed.
-/

namespace Irida.Host

/-- A packet of the peer: a payload, with acks before its frame. -/
structure Packet where
  acks : Bytes := []
  payload : Bytes
  deriving DecidableEq, Repr

/-- The bytes of a packet. -/
def Packet.encode (p : Packet) : Bytes :=
  p.acks ++ Proto.frame p.payload

/-- The bytes of some packets. -/
def encodePackets (packets : List Packet) : Bytes :=
  packets.flatMap Packet.encode

/-- What the peer sends on the last of the requests that it has received. -/
abbrev Server := List Bytes → List Packet

/-- Every packet of the peer is a frame that can be decoded. -/
def Server.WellFormed (server : Server) : Prop :=
  ∀ requests, ∀ p ∈ server requests, Proto.Acks p.acks ∧ Proto.Framable p.payload

/-- What a `recv` call finds: a number of bytes that have arrived, none of them
within the timeout if it is zero, or a connection that the peer has closed. -/
inductive Arrival
  | bytes (n : ℕ)
  | closed
  deriving DecidableEq, Repr

/-- `TcpClient`, with the requests that the peer has received and the bytes that
it has sent and that were not received here. -/
structure TcpClient where
  connected : Bool := true
  requests : List Bytes := []
  inFlight : Bytes := []
  sends : List Bool := []
  arrivals : List Arrival := []
  deriving DecidableEq, Repr

namespace TcpClient

/-- `send`. -/
def send (server : Server) (data : Bytes) (s : TcpClient) : Result ℕ × TcpClient :=
  if s.connected = false then (.error "send: not connected", s)
  else
    match s.sends with
    | false :: sends => (.error "send() failed", { s with sends := sends })
    | sends =>
      let requests := s.requests ++ [data]
      (.ok data.length,
        { s with
          sends := sends.tail
          requests := requests
          inFlight := s.inFlight ++ encodePackets (server requests) })

/-- `recv`.  A schedule that has run out lets every call time out. -/
def recv (size : ℕ) (s : TcpClient) : Result Bytes × TcpClient :=
  if s.connected = false then (.error "recv: not connected", s)
  else
    match s.arrivals with
    | [] => (.error "recv() failed or timed out", s)
    | .closed :: arrivals => (.error "recv: connection closed", { s with arrivals := arrivals })
    | .bytes n :: arrivals =>
      let n := min (min n size) s.inFlight.length
      if n = 0 then (.error "recv() failed or timed out", { s with arrivals := arrivals })
      else
        (.ok (s.inFlight.take n),
          { s with arrivals := arrivals, inFlight := s.inFlight.drop n })

/-- `close`. -/
def close (s : TcpClient) : TcpClient :=
  { s with connected := false }

/-- A `send` call fails and changes nothing on the wire, or the peer receives the
request and sends its packets. -/
theorem send_cases (server : Server) (data : Bytes) (s : TcpClient) :
    (∃ e s', s.send server data = (.error e, s') ∧ s'.requests = s.requests ∧
        s'.inFlight = s.inFlight) ∨
      (∃ n s', s.send server data = (.ok n, s') ∧ s'.requests = s.requests ++ [data] ∧
        s'.inFlight = s.inFlight ++ encodePackets (server (s.requests ++ [data]))) := by
  unfold send
  split
  · exact Or.inl ⟨_, _, rfl, rfl, rfl⟩
  · split
    · exact Or.inl ⟨_, _, rfl, rfl, rfl⟩
    · exact Or.inr ⟨_, _, rfl, rfl, rfl⟩

/-- A `recv` call fails and takes nothing from the wire, or takes some bytes. -/
theorem recv_cases (size : ℕ) (s : TcpClient) :
    (∃ e s', s.recv size = (.error e, s') ∧ s'.requests = s.requests ∧
        s'.inFlight = s.inFlight) ∨
      (∃ bytes s', s.recv size = (.ok bytes, s') ∧ s'.requests = s.requests ∧
        s.inFlight = bytes ++ s'.inFlight ∧ bytes.length ≤ size) := by
  unfold recv
  split
  · exact Or.inl ⟨_, _, rfl, rfl, rfl⟩
  · split
    · exact Or.inl ⟨_, _, rfl, rfl, rfl⟩
    · exact Or.inl ⟨_, _, rfl, rfl, rfl⟩
    · dsimp only
      split
      · exact Or.inl ⟨_, _, rfl, rfl, rfl⟩
      · refine Or.inr ⟨_, _, rfl, rfl, (List.take_append_drop _ _).symm, ?_⟩
        rw [List.length_take]
        omega

theorem send_ok {server : Server} {data : Bytes} {s : TcpClient} (hconn : s.connected = true)
    (hsends : false ∉ s.sends) :
    s.send server data = (.ok data.length,
      { s with
        sends := s.sends.tail
        requests := s.requests ++ [data]
        inFlight := s.inFlight ++ encodePackets (server (s.requests ++ [data])) }) := by
  unfold send
  rw [if_neg (by simp [hconn])]
  split
  · next heq =>
      rw [heq] at hsends
      exact absurd (List.mem_cons_self ..) hsends
  · rfl

theorem recv_bytes {size n : ℕ} {s : TcpClient} {later : List Arrival}
    (hconn : s.connected = true) (harrivals : s.arrivals = .bytes n :: later)
    (hpos : 0 < min (min n size) s.inFlight.length) :
    s.recv size = (.ok (s.inFlight.take (min (min n size) s.inFlight.length)),
      { s with
        arrivals := later
        inFlight := s.inFlight.drop (min (min n size) s.inFlight.length) }) := by
  unfold recv
  rw [if_neg (by simp [hconn]), harrivals]
  dsimp only
  rw [if_neg hpos.ne']

end TcpClient

end Irida.Host
