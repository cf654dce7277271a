import Irida.Lib.Scanner
import Irida.Proto.Frame

/-!
# The frame decoder over a whole stream

`FrameDecoder` is fed a stream in arbitrary chunks, and payloads are asked for at
arbitrary times.

`run_drain` is the round trip of the framing: from a stream of frames come their
payloads, however it is cut and whenever the decoder is asked.  For any other
stream, `packetScanner` reads it one byte at a time and finds the packets in it, good
or bad; `takes_nextPayload` relates the decoder to it.  A bad packet is answered with
nothing, as is a buffer without a packet, so whoever drains the decoder stops
there: `received_independent_iff` says for which streams the payloads then depend on
the chunks.
-/

namespace Irida.Proto

/-- `FrameDecoder::feed`. -/
def feed (buf bytes : Bytes) : Bytes :=
  buf ++ bytes

/-! ## Packets -/

/-- A packet in a stream: the payload is followed by two characters, which need not
be digits and need not match it. -/
structure RawPacket where
  payload : Bytes
  hi : Byte
  lo : Byte
  deriving DecidableEq, Repr

/-- The packet on the wire. -/
def RawPacket.bytes (p : RawPacket) : Bytes :=
  byte '$' :: (p.payload ++ [byte '#', p.hi, p.lo])

/-- What the decoder returns for a packet. -/
def RawPacket.accepted (p : RawPacket) : Option Bytes :=
  if checksumMatches p.payload p.hi p.lo then some p.payload else none

/-- A part of a packet without its start, that does not contain all of the end. -/
def Unfinished (body : Bytes) : Prop :=
  byte '#' ∉ body ∨
    ∃ payload tail, body = payload ++ byte '#' :: tail ∧ byte '#' ∉ payload ∧ tail.length ≤ 1

/-- What follows the start of a packet: the rest of it, or a part of that. -/
theorem packet_cases (body : Bytes) :
    (∃ p : RawPacket, ∃ rest, body = p.payload ++ byte '#' :: p.hi :: p.lo :: rest ∧
      byte '#' ∉ p.payload) ∨ Unfinished body := by
  by_cases hend : byte '#' ∈ body
  · obtain ⟨payload, tail, rfl, hpayload⟩ := List.eq_append_cons_of_mem hend
    match tail with
    | [] => exact Or.inr (Or.inr ⟨payload, [], rfl, hpayload, Nat.zero_le 1⟩)
    | [hi] => exact Or.inr (Or.inr ⟨payload, [hi], rfl, hpayload, Nat.le_refl 1⟩)
    | hi :: lo :: rest => exact Or.inl ⟨⟨payload, hi, lo⟩, rest, rfl, hpayload⟩
  · exact Or.inr (Or.inl hend)

theorem Unfinished.length_dropWhile_le {body : Bytes} (h : Unfinished body) :
    (body.dropWhile (· ≠ byte '#')).length ≤ 2 := by
  rcases h with h | ⟨payload, tail, rfl, hpayload, htail⟩
  · rw [dropWhile_notMem h]
    exact Nat.zero_le 2
  · rw [(dropWhile_append_cons hpayload tail).1, List.length_cons]
    omega

/-- **What the decoder does to a buffer**: without the start of a packet it drops
the buffer, it takes the first packet if all of it is there, and else it keeps
what it has but for leading acks. -/
theorem nextPayload_cases (buf : Bytes) :
    (byte '$' ∉ buf ∧ nextPayload buf = (none, [])) ∨
    (∃ junk, ∃ p : RawPacket, ∃ rest, buf = junk ++ (p.bytes ++ rest) ∧ byte '$' ∉ junk ∧
      byte '#' ∉ p.payload ∧ nextPayload buf = (p.accepted, rest)) ∨
    (∃ acks junk body, buf = acks ++ (junk ++ byte '$' :: body) ∧ byte '$' ∉ acks ∧
      byte '$' ∉ junk ∧ Unfinished body ∧ nextPayload buf = (none, junk ++ byte '$' :: body)) := by
  have hsplit := List.takeWhile_append_dropWhile (p := isAck) (l := buf)
  have hacks : byte '$' ∉ buf.takeWhile isAck := by
    intro hmem
    have hdollar : isAck (byte '$') = true := List.mem_takeWhile_imp hmem
    cases hdollar
  -- the decoder drops acks and looks for the start of a packet
  by_cases hstart : byte '$' ∈ buf.dropWhile isAck
  · obtain ⟨junk, body, hjunk, hnone⟩ := List.eq_append_cons_of_mem hstart
    have hfind := (dropWhile_append_cons hnone body).1
    refine Or.inr ?_
    -- behind the start there is a whole packet or a part of one
    rcases packet_cases body with ⟨p, rest, rfl, hpayload⟩ | hbody
    · obtain ⟨hdrop, htake⟩ := dropWhile_append_cons hpayload (p.hi :: p.lo :: rest)
      refine Or.inl ⟨buf.takeWhile isAck ++ junk, p, rest, ?_, ?_, hpayload, ?_⟩
      · calc buf
          _ = buf.takeWhile isAck ++ buf.dropWhile isAck := hsplit.symm
          _ = buf.takeWhile isAck ++ junk ++ (p.bytes ++ rest) := by
              rw [hjunk, RawPacket.bytes]
              simp
      · rw [List.mem_append, not_or]
        exact ⟨hacks, hnone⟩
      · unfold nextPayload
        simp only [hjunk, hfind, hdrop, htake, RawPacket.accepted]
        split <;> rfl
    · refine Or.inr ⟨buf.takeWhile isAck, junk, body, ?_, hacks, hnone, hbody, ?_⟩
      · rw [← hjunk, hsplit]
      · exact nextPayload_short hjunk hnone hbody.length_dropWhile_le
  · refine Or.inl ⟨?_, ?_⟩
    · rw [← hsplit, List.mem_append, not_or]
      exact ⟨hacks, hstart⟩
    · unfold nextPayload
      simp only [dropWhile_notMem hstart]

theorem length_nextPayload {buf payload buf' : Bytes}
    (h : nextPayload buf = (some payload, buf')) : buf'.length < buf.length := by
  rcases nextPayload_cases buf with ⟨-, hcall⟩ | ⟨junk, p, rest, rfl, -, -, hcall⟩ |
    ⟨acks, junk, body, -, -, -, -, hcall⟩
  · rw [hcall] at h
    cases h
  · rw [hcall] at h
    obtain ⟨-, rfl⟩ := Prod.mk.inj h
    simp only [RawPacket.bytes, List.length_append, List.length_cons]
    omega
  · rw [hcall] at h
    cases h

/-! ## Calls on a decoder -/

/-- A call on a decoder. -/
inductive DecoderCall
  | feed (bytes : Bytes)
  | nextPayload
  deriving DecidableEq, Repr

/-- The payloads that a list of calls yields, and the buffer behind it. -/
def run : Bytes → List DecoderCall → List Bytes × Bytes
  | buf, [] => ([], buf)
  | buf, .feed bytes :: calls => run (feed buf bytes) calls
  | buf, .nextPayload :: calls =>
    match nextPayload buf with
    | (payload, buf) => (payload.toList ++ (run buf calls).1, (run buf calls).2)

/-- The stream that the calls feed. -/
def fed : List DecoderCall → Bytes
  | [] => []
  | .feed bytes :: calls => bytes ++ fed calls
  | .nextPayload :: calls => fed calls

/-- `next_payload` is called until it returns nothing. -/
def drain (buf : Bytes) : List Bytes × Bytes :=
  match _h : nextPayload buf with
  | (none, buf') => ([], buf')
  | (some payload, buf') => (payload :: (drain buf').1, (drain buf').2)
termination_by buf.length
decreasing_by all_goals exact length_nextPayload _h

theorem drain_none {buf buf' : Bytes} (h : nextPayload buf = (none, buf')) :
    drain buf = ([], buf') := by
  rw [drain]
  split <;> simp_all

theorem drain_some {buf payload buf' : Bytes} (h : nextPayload buf = (some payload, buf')) :
    drain buf = (payload :: (drain buf').1, (drain buf').2) := by
  rw [drain]
  split <;> simp_all

/-! ## The round trip -/

/-- While a stream of frames is fed, the payloads yielded so far are its first ones, and what
is in the buffer encodes the others. -/
theorem run_encodes {calls : List DecoderCall} {buf : Bytes} {payloads : List Bytes}
    (h : Encodes (buf ++ fed calls) payloads) :
    ∃ rest, payloads = (run buf calls).1 ++ rest ∧ Encodes (run buf calls).2 rest := by
  -- what is in the buffer and what is still fed make up the stream
  induction calls generalizing buf payloads with
  | nil =>
      rw [fed, List.append_nil] at h
      exact ⟨payloads, rfl, h⟩
  | cons call calls ih =>
      cases call with
      | feed bytes =>
          rw [fed, ← List.append_assoc] at h
          exact ih h
      | nextPayload =>
          rcases nextPayload_spec h with ⟨payload, buf', payloads', htaken, rfl, hmore⟩ |
            ⟨buf', hnone, hmore⟩
          · obtain ⟨rest, rfl, hrest⟩ := ih hmore
            refine ⟨rest, ?_, ?_⟩
            · rw [run, htaken]
              rfl
            · rw [run, htaken]
              exact hrest
          · obtain ⟨rest, rfl, hrest⟩ := ih hmore
            refine ⟨rest, ?_, ?_⟩
            · rw [run, hnone]
              rfl
            · rw [run, hnone]
              exact hrest

theorem drain_encodes {buf : Bytes} {payloads : List Bytes} (h : Encodes buf payloads) :
    (drain buf).1 = payloads := by
  induction h with
  | acks hacks => rw [drain_none (nextPayload_acks hacks)]
  | @frame acks payload rest payloads hacks hpayload _ ih =>
      rw [drain_some (nextPayload_frame hacks hpayload rest), ih]

/-- **The framing round trip**: a decoder that is fed a stream of frames, in any
chunks and asked for payloads at any times, and is drained at the end, has yielded
exactly the payloads of the frames. -/
theorem run_drain {stream : Bytes} {payloads : List Bytes} (h : Encodes stream payloads)
    {calls : List DecoderCall} (hfed : fed calls = stream) :
    (run [] calls).1 ++ (drain (run [] calls).2).1 = payloads := by
  subst hfed
  have hstart : Encodes ([] ++ fed calls) payloads := h
  obtain ⟨rest, hpayloads, hrest⟩ := run_encodes hstart
  rw [drain_encodes hrest, hpayloads]

/-- Two frames and three acks, cut within the checksum of the first. -/
theorem run_drain_cut :
    (run [] [.feed (ascii "+$OK#9"), .nextPayload, .feed (ascii "a-"), .nextPayload, .nextPayload,
        .feed (ascii "$a#61+")]).1 ++
      (drain (run [] [.feed (ascii "+$OK#9"), .nextPayload, .feed (ascii "a-"), .nextPayload,
        .nextPayload, .feed (ascii "$a#61+")]).2).1 = [ascii "OK", ascii "a"] := by
  have htail : Encodes (ascii "+") [] := .acks (by unfold Acks; decide)
  have hsecond : Encodes (ascii "-" ++ (frame (ascii "a") ++ ascii "+")) [ascii "a"] :=
    .frame (by unfold Acks; decide) (by unfold Framable; decide) htail
  have hfirst : Encodes (ascii "+" ++ (frame (ascii "OK") ++ (ascii "-" ++
      (frame (ascii "a") ++ ascii "+")))) [ascii "OK", ascii "a"] :=
    .frame (by unfold Acks; decide) (by unfold Framable; decide) hsecond
  exact run_drain hfirst (by decide)

/-! ## Scanning any stream -/

/-- How far a packet has been read. -/
inductive PacketState
  | outside
  | payload (payload : Bytes)
  | hi (payload : Bytes)
  | lo (payload : Bytes) (hi : Byte)
  deriving DecidableEq, Repr

/-- A stream is read one byte at a time: a packet starts at `$`, its payload goes up to the
first `#`, and two characters follow. -/
def packetScanner : Scanner Byte PacketState RawPacket where
  start := .outside
  next
    | .outside, c => if c = byte '$' then (.payload [], none) else (.outside, none)
    | .payload payload, c =>
      if c = byte '#' then (.hi payload, none) else (.payload (payload ++ [c]), none)
    | .hi payload, c => (.lo payload c, none)
    | .lo payload hi, c => (.outside, some ⟨payload, hi, c⟩)

/-- The packets in a stream, good or bad. -/
def packets (stream : Bytes) : List RawPacket :=
  packetScanner.found packetScanner.start stream

section

open Scanner (found after)

theorem scan_junk {junk : Bytes} (h : byte '$' ∉ junk) :
    packetScanner.found .outside junk = [] ∧ packetScanner.after .outside junk = .outside := by
  induction junk with
  | nil => exact ⟨rfl, rfl⟩
  | cons c junk ih =>
      rw [List.mem_cons, not_or] at h
      have hnext : packetScanner.next .outside c = (.outside, none) := if_neg (Ne.symm h.1)
      rw [found, after, hnext]
      exact ih h.2

theorem scan_payload {body : Bytes} (h : byte '#' ∉ body) (payload : Bytes) :
    packetScanner.found (.payload payload) body = [] ∧
      packetScanner.after (.payload payload) body = .payload (payload ++ body) := by
  induction body generalizing payload with
  | nil => exact ⟨rfl, by rw [List.append_nil]; rfl⟩
  | cons c body ih =>
      rw [List.mem_cons, not_or] at h
      have hnext : packetScanner.next (.payload payload) c = (.payload (payload ++ [c]), none) :=
        if_neg (Ne.symm h.1)
      have hrest := ih h.2 (payload ++ [c])
      rw [found, after, hnext]
      rw [List.append_assoc, List.singleton_append] at hrest
      exact hrest

theorem scan_packet {p : RawPacket} (h : byte '#' ∉ p.payload) :
    packetScanner.found .outside p.bytes = [p] ∧
      packetScanner.after .outside p.bytes = .outside := by
  obtain ⟨hfound, hafter⟩ := scan_payload h []
  have hstart : packetScanner.next .outside (byte '$') = (.payload [], none) := rfl
  rw [RawPacket.bytes, found, after, hstart, Scanner.found_append, Scanner.after_append, hfound,
    hafter]
  exact ⟨rfl, rfl⟩

theorem scan_unfinished {body : Bytes} (h : Unfinished body) :
    packetScanner.found .outside (byte '$' :: body) = [] := by
  have hstart : packetScanner.next .outside (byte '$') = (.payload [], none) := rfl
  rw [found, hstart]
  rcases h with h | ⟨payload, tail, rfl, hpayload, htail⟩
  · exact (scan_payload h []).1
  · obtain ⟨hfound, hafter⟩ := scan_payload hpayload []
    show packetScanner.found (.payload []) (payload ++ byte '#' :: tail) = []
    rw [Scanner.found_append, hfound, hafter]
    rcases tail with _ | ⟨hi, _ | ⟨lo, tail⟩⟩
    · rfl
    · rfl
    · simp only [List.length_cons] at htail
      omega

end

/-- One call finds no packet in the buffer and leaves none, or takes the first one.  The scanner
ends in the same mode with what is left. -/
theorem packets_nextPayload (buf : Bytes) :
    (packets buf = [] ∧ (nextPayload buf).1 = none ∧ packets (nextPayload buf).2 = [] ∨
      ∃ p, packets buf = p :: packets (nextPayload buf).2 ∧ (nextPayload buf).1 = p.accepted) ∧
      packetScanner.after .outside (nextPayload buf).2 = packetScanner.after .outside buf := by
  unfold packets
  -- nothing, a packet or a part of one is in the buffer, and the scanner says the same
  rcases nextPayload_cases buf with ⟨hjunk, hcall⟩ |
    ⟨junk, p, rest, rfl, hjunk, hpayload, hcall⟩ |
    ⟨acks, junk, body, rfl, hacks, hjunk, hbody, hcall⟩
  · obtain ⟨hfound, hafter⟩ := scan_junk hjunk
    rw [hcall]
    exact ⟨Or.inl ⟨hfound, rfl, rfl⟩, hafter.symm⟩
  · obtain ⟨hfound, hafter⟩ := scan_junk hjunk
    obtain ⟨hpacket, hbehind⟩ := scan_packet hpayload
    rw [hcall]
    refine ⟨Or.inr ⟨p, ?_, rfl⟩, ?_⟩
    · show packetScanner.found .outside _ = p :: packetScanner.found .outside rest
      rw [Scanner.found_append, hfound, hafter, Scanner.found_append, hpacket, hbehind]
      rfl
    · rw [Scanner.after_append, hafter, Scanner.after_append, hbehind]
  · obtain ⟨hfound, hafter⟩ := scan_junk hacks
    obtain ⟨hfound', hafter'⟩ := scan_junk hjunk
    have hnothing : packetScanner.found .outside (junk ++ byte '$' :: body) = [] := by
      rw [Scanner.found_append, hfound', hafter', scan_unfinished hbody]
      rfl
    rw [hcall]
    refine ⟨Or.inl ⟨?_, rfl, hnothing⟩, ?_⟩
    · show packetScanner.found .outside _ = []
      rw [Scanner.found_append, hfound, hafter, hnothing]
      rfl
    · rw [Scanner.after_append _ _ acks, hafter]

/-- The decoder takes the packets that the scanner finds. -/
theorem takes_nextPayload : packetScanner.Takes RawPacket.accepted nextPayload := by
  constructor
  · intro buf hnone
    rcases (packets_nextPayload buf).1 with ⟨-, hnothing⟩ | ⟨p, hsome, -⟩
    · exact hnothing
    · rw [packets, hnone] at hsome
      cases hsome
  · intro buf item items hfound
    rcases (packets_nextPayload buf).1 with ⟨hnone, -⟩ | ⟨p, hsome, haccepted⟩
    · rw [packets, hfound] at hnone
      cases hnone
    · rw [packets, hfound] at hsome
      obtain ⟨rfl, hitems⟩ := List.cons.inj hsome
      exact ⟨haccepted, hitems.symm⟩
  · exact fun buf => (packets_nextPayload buf).2

/-! ## Draining after each chunk -/

/-- The chunks are fed one after the other, and the decoder is drained after each. -/
def receive : Bytes → List Bytes → List Bytes × Bytes
  | buf, [] => ([], buf)
  | buf, chunk :: chunks =>
    match drain (feed buf chunk) with
    | (payloads, buf) => (payloads ++ (receive buf chunks).1, (receive buf chunks).2)

theorem drains_drain (buf : Bytes) :
    Scanner.Drains nextPayload buf (drain buf).1 (drain buf).2 := by
  induction buf using drain.induct with
  | case1 buf buf' hnone =>
      rw [drain_none hnone]
      have hdone : Scanner.Drains nextPayload buf [] (nextPayload buf).2 := .done (by rw [hnone])
      rwa [hnone] at hdone
  | case2 buf payload buf' hsome ih =>
      rw [drain_some hsome]
      exact .more (by rw [hsome]) (by rw [hsome]; exact ih)

theorem receives_receive (buf : Bytes) (chunks : List Bytes) :
    Scanner.Receives nextPayload buf chunks (receive buf chunks).1 (receive buf chunks).2 := by
  induction chunks generalizing buf with
  | nil => exact .nil
  | cons chunk chunks ih => exact .cons (drains_drain (feed buf chunk)) (ih _)

/-- **Exactly when the division into chunks does not matter**: draining the decoder after
each chunk yields the same payloads for all divisions of a stream if and only if no good packet
comes behind a bad one in it. -/
theorem received_independent_iff (stream : Bytes) :
    (∀ chunks chunks' : List Bytes, chunks.flatten = stream → chunks'.flatten = stream →
        (receive [] chunks).1 = (receive [] chunks').1) ↔
      (packets stream).Pairwise fun p q => q.accepted.isSome → p.accepted.isSome :=
  Scanner.receives_independent_iff takes_nextPayload
    (fun chunks => ⟨(receive [] chunks).2, receives_receive [] chunks⟩) stream

/-- A good packet that arrives together with a bad one before it is hidden. -/
theorem received_hidden :
    ¬ ∀ stream : Bytes, ∀ chunks chunks' : List Bytes, chunks.flatten = stream →
      chunks'.flatten = stream → (receive [] chunks).1 = (receive [] chunks').1 := by
  intro hall
  have hsame := hall (ascii "$OK#00$OK#9a") [ascii "$OK#00$OK#9a"]
    [ascii "$OK#00", ascii "$OK#9a"] (by decide) (by decide)
  have hwhole : (receive [] [ascii "$OK#00$OK#9a"]).1 = [] := by decide +kernel
  have hcut : (receive [] [ascii "$OK#00", ascii "$OK#9a"]).1 = [ascii "OK"] := by decide +kernel
  rw [hwhole, hcut] at hsame
  cases hsame

end Irida.Proto
