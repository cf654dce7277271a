import Irida.Proto.Decoder
import Irida.Transport.GdbClient

/-!
# A server for the client

`mock_gdb_server.cpp`: the stub that the transport is tested against.  It feeds what it receives to
a decoder, and acks and answers each payload that comes out of it.  What it answers is a parameter
here, with a state of its own, and `canned` is what the tests answer.

The requests may arrive in any pieces.  As the client sends whole frames, the server answers each of
them exactly once and has nothing left of it (`server_append`).
-/

namespace Irida.Proto

/-- Draining the decoder on a part of a stream takes the first payloads, and all of them if the
part is the whole stream. -/
theorem drain_spec {buf rest : Bytes} {payloads : List Bytes} (h : Encodes (buf ++ rest) payloads) :
    ∃ left, payloads = (drain buf).1 ++ left ∧ Encodes ((drain buf).2 ++ rest) left ∧
      (rest = [] → left = []) := by
  induction buf using drain.induct generalizing payloads with
  | case1 buf buf' hnone =>
      rw [drain_none hnone]
      rcases nextPayload_spec h with ⟨payload, _, _, hsome, -⟩ | ⟨buf'', hnone', hrest⟩
      · rw [hnone] at hsome
        cases hsome
      · rw [hnone] at hnone'
        cases hnone'
        refine ⟨payloads, rfl, hrest, fun hnil => ?_⟩
        have hall : Encodes buf payloads := by
          rwa [hnil, List.append_nil] at h
        rw [← drain_encodes hall, drain_none hnone]
  | case2 buf payload buf' hsome ih =>
      rw [drain_some hsome]
      rcases nextPayload_spec h with ⟨payload', buf'', payloads', hsome', rfl, hrest⟩ |
        ⟨_, hnone, -⟩
      · rw [hsome] at hsome'
        cases hsome'
        obtain ⟨left, rfl, hleft, hnil⟩ := ih hrest
        exact ⟨left, rfl, hleft, hnil⟩
      · rw [hsome] at hnone
        cases hnone

/-- **A stream in pieces**: the payloads of its frames are received, and only acks are left. -/
theorem receive_spec {buf : Bytes} {pieces : List Bytes} {payloads : List Bytes}
    (h : Encodes (buf ++ pieces.flatten) payloads) (hnil : pieces = [] → payloads = []) :
    (receive buf pieces).1 = payloads ∧ Encodes (receive buf pieces).2 [] := by
  induction pieces generalizing buf payloads with
  | nil =>
      obtain rfl := hnil rfl
      rw [List.flatten_nil, List.append_nil] at h
      exact ⟨rfl, h⟩
  | cons piece pieces ih =>
      rw [List.flatten_cons, ← List.append_assoc] at h
      obtain ⟨left, rfl, hleft, hlast⟩ := drain_spec h
      obtain ⟨hpayloads, hrest⟩ := ih hleft fun hnone => hlast (by rw [hnone, List.flatten_nil])
      exact ⟨congrArg _ hpayloads, hrest⟩

end Irida.Proto

namespace Irida.Transport

open Host Proto

/-- What a server answers to a payload. -/
abbrev Handler (γ : Type*) := Bytes → γ → Bytes × γ

/-- How the requests arrive at the server: the pieces that `recv` returns, for each request in
turn. -/
structure Cutting where
  pieces : ℕ → Bytes → List Bytes
  flatten_pieces : ∀ i request, (pieces i request).flatten = request

/-- Every request arrives as a whole. -/
def Cutting.whole : Cutting where
  pieces _ request := [request]
  flatten_pieces _ request := by simp

/-- `MockGdbServer`, with the state of what it serves. -/
structure MockGdbServer (γ : Type*) where
  decoder : Bytes := []
  guest : γ

namespace MockGdbServer

section

variable {γ : Type*} (handle : Handler γ)

/-- The answers to some payloads. -/
def replyAll : List Bytes → γ → List Packet × γ
  | [], g => ([], g)
  | payload :: payloads, g =>
    let (answer, g) := handle payload g
    let (packets, g) := replyAll payloads g
    ({ acks := ascii "+", payload := answer } :: packets, g)

/-- The loop of `run`, for the pieces of one request. -/
def serve (pieces : List Bytes) (s : MockGdbServer γ) : List Packet × MockGdbServer γ :=
  let (payloads, decoder) := receive s.decoder pieces
  let (packets, g) := replyAll handle payloads s.guest
  (packets, { decoder := decoder, guest := g })

variable (cutting : Cutting) (start : MockGdbServer γ)

/-- The server after some requests, the last one first. -/
def after : List Bytes → MockGdbServer γ
  | [] => start
  | request :: earlier => (serve handle (cutting.pieces earlier.length request) (after earlier)).2

/-- The server at the other end of the connection. -/
def server : Server := fun requests =>
  match requests.reverse with
  | [] => []
  | request :: earlier =>
    (serve handle (cutting.pieces earlier.length request) (after handle cutting start earlier)).1

end

/-- The replies of `run`. -/
def canned : Handler Unit := fun p _ =>
  let answer : Bytes :=
    if p = ascii "qSupported" then ascii "PacketSize=1000"
    else if p = ascii "g" then ascii "0102030405060708"
    else if p.head? = some (byte 'm') then ascii "deadbeef"
    else if p.head? = some (byte 'M') ∨ p.head? = some (byte 'Z') ∨ p.head? = some (byte 'z') then
      ascii "OK"
    else if p = ascii "c" ∨ p = ascii "s" ∨ p = ascii "?" then ascii "S05"
    -- unsupported
    else []
  (answer, ())

variable {γ : Type*} {handle : Handler γ} {cutting : Cutting} {start : MockGdbServer γ}

theorem framable_replyAll (hframable : ∀ payload g, Framable (handle payload g).1)
    (payloads : List Bytes) (g : γ) :
    ∀ p ∈ (replyAll handle payloads g).1, Acks p.acks ∧ Framable p.payload := by
  induction payloads generalizing g with
  | nil => simp [replyAll]
  | cons payload payloads ih =>
      intro p hp
      rcases List.mem_cons.mp hp with rfl | hp
      · exact ⟨by show ∀ c ∈ ascii "+", isAck c = true; decide, hframable payload g⟩
      · exact ih _ p hp

theorem server_wellFormed (hframable : ∀ payload g, Framable (handle payload g).1) :
    (server handle cutting start).WellFormed := by
  intro requests p hp
  unfold server at hp
  split at hp
  · cases hp
  · exact framable_replyAll hframable _ _ p hp

/-- A server that has only acks in its decoder, and the state of what it serves. -/
def Idle (s : MockGdbServer γ) (g : γ) : Prop :=
  Encodes s.decoder [] ∧ s.guest = g

/-- **One request** is answered once, in whatever pieces it arrives. -/
theorem server_append {requests : List Bytes} {payload : Bytes} {g : γ}
    (hidle : Idle (after handle cutting start requests.reverse) g) (hpayload : Framable payload) :
    server handle cutting start (requests ++ [frame payload]) =
        [{ acks := ascii "+", payload := (handle payload g).1 }] ∧
      Idle (after handle cutting start (requests ++ [frame payload]).reverse)
        (handle payload g).2 := by
  obtain ⟨hdecoder, hguest⟩ := hidle
  rw [server, List.reverse_append, List.reverse_singleton, List.singleton_append]
  dsimp only [after, serve]
  generalize hs : after handle cutting start requests.reverse = s at hdecoder hguest ⊢
  generalize hpieces : cutting.pieces requests.reverse.length (frame payload) = pieces
  have hflatten : pieces.flatten = frame payload := by rw [← hpieces, cutting.flatten_pieces]
  have hne : pieces ≠ [] := by
    rintro rfl
    simp [frame] at hflatten
  have hstream : Encodes (s.decoder ++ pieces.flatten) [payload] := by
    have happend := hdecoder.append_packet acks_nil hpayload
    rwa [hflatten]
  obtain ⟨hreceived, hrest⟩ := receive_spec hstream fun hnil => absurd hnil hne
  rw [hreceived, ← hguest]
  exact ⟨rfl, hrest, rfl⟩

end MockGdbServer

end Irida.Transport
