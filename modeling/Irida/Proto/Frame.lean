import Irida.Proto.Hex
import Mathlib.Data.List.TakeWhile

/-!
# Framing

`frame.cpp`: a payload is sent as `$payload#cc`, and the decoder takes payloads
back out of a stream that arrives in arbitrary pieces.

`Encodes stream payloads` says that a stream is made of the frames of some
payloads, with acks between them.  `nextPayload_spec` is the one fact about the
decoder that the transport needs: whatever part of such a stream has arrived, the
decoder either takes the first payload or leaves the stream as it was.
-/

namespace Irida.Proto

/-- `checksum`. -/
def checksum (payload : Bytes) : Byte :=
  payload.sum

/-- `frame`. -/
def frame (payload : Bytes) : Bytes :=
  byte '$' :: (payload ++ [byte '#', hexDigit ((checksum payload).toNat / 16),
    hexDigit ((checksum payload).toNat % 16)])

/-- `is_ack`. -/
def isAck (c : Byte) : Bool :=
  c = byte '+' ∨ c = byte '-'

/-- The check of `next_payload` on the two checksum digits. -/
def checksumMatches (payload : Bytes) (hi lo : Byte) : Bool :=
  match hexval hi, hexval lo with
  | some hi, some lo => BitVec.ofNat 8 (16 * hi + lo) = checksum payload
  | _, _ => false

/-- `FrameDecoder::next_payload`, on the buffer of the decoder. -/
def nextPayload (buf : Bytes) : Option Bytes × Bytes :=
  let buf := buf.dropWhile isAck
  match buf.dropWhile (· ≠ byte '$') with
  | [] => (none, [])
  | _ :: body =>
    match body.dropWhile (· ≠ byte '#') with
    | _ :: hi :: lo :: rest =>
      let payload := body.takeWhile (· ≠ byte '#')
      if checksumMatches payload hi lo then (some payload, rest) else (none, rest)
    -- more bytes are needed
    | _ => (none, buf)

theorem checksumMatches_frame (payload : Bytes) :
    checksumMatches payload (hexDigit ((checksum payload).toNat / 16))
      (hexDigit ((checksum payload).toNat % 16)) = true := by
  have hlt := (checksum payload).isLt
  rw [checksumMatches, hexval_hexDigit (by omega), hexval_hexDigit (by omega)]
  simp only [Nat.div_add_mod, BitVec.ofNat_toNat, BitVec.setWidth_eq, decide_true]

/-! ## Streams of frames -/

/-- Acks only. -/
def Acks (bytes : Bytes) : Prop :=
  ∀ c ∈ bytes, isAck c = true

/-- A payload that can be framed: the character that ends it is escaped. -/
def Framable (payload : Bytes) : Prop :=
  byte '#' ∉ payload

/-- A stream of frames, with acks between them. -/
inductive Encodes : Bytes → List Bytes → Prop
  | acks {bytes : Bytes} : Acks bytes → Encodes bytes []
  | frame {acks payload rest : Bytes} {payloads : List Bytes} : Acks acks → Framable payload →
      Encodes rest payloads → Encodes (acks ++ (frame payload ++ rest)) (payload :: payloads)

theorem acks_nil : Acks [] := fun _ hc => absurd hc List.not_mem_nil

theorem Acks.append {first second : Bytes} (hfirst : Acks first) (hsecond : Acks second) :
    Acks (first ++ second) := by
  intro c hc
  rcases List.mem_append.mp hc with hc | hc
  · exact hfirst c hc
  · exact hsecond c hc

theorem dropWhile_acks {acks : Bytes} (hacks : Acks acks) (rest : Bytes) :
    (acks ++ rest).dropWhile isAck = rest.dropWhile isAck :=
  List.dropWhile_append_of_pos hacks

theorem Encodes.append_packet {stream acks payload : Bytes} {payloads : List Bytes}
    (h : Encodes stream payloads) (hacks : Acks acks) (hpayload : Framable payload) :
    Encodes (stream ++ (acks ++ Proto.frame payload)) (payloads ++ [payload]) := by
  induction h with
  | @acks bytes hbytes =>
      have hone := Encodes.frame (hbytes.append hacks) hpayload (.acks acks_nil)
      rw [List.append_nil, List.append_assoc] at hone
      exact hone
  | frame hmore hfirst _ ih =>
      rw [List.append_assoc, List.append_assoc]
      exact .frame hmore hfirst ih

/-- A stream of acks is one without payloads. -/
theorem Encodes.acks_iff {stream : Bytes} {payloads : List Bytes} (h : Encodes stream payloads) :
    Acks stream ↔ payloads = [] := by
  cases h with
  | acks hbytes => exact iff_of_true hbytes rfl
  | @frame acks payload rest payloads _ _ _ =>
      refine iff_of_false (fun hacks => ?_) (List.cons_ne_nil _ _)
      -- a frame does not start with an ack
      have hdollar : isAck (byte '$') = true := hacks (byte '$') (by simp [Proto.frame])
      cases hdollar

/-! ## What the decoder does to a stream -/

private theorem dropWhile_frame (payload rest : Bytes) :
    (frame payload ++ rest).dropWhile isAck = frame payload ++ rest := rfl

theorem nextPayload_acks {acks : Bytes} (hacks : Acks acks) :
    nextPayload acks = (none, []) := by
  have hdrop : acks.dropWhile isAck = [] := by
    have := dropWhile_acks hacks []
    rwa [List.append_nil, List.dropWhile_nil] at this
  rw [nextPayload, hdrop]
  rfl

theorem dropWhile_notMem {bytes : Bytes} {c : Byte} (h : c ∉ bytes) :
    bytes.dropWhile (· ≠ c) = [] := by
  rw [List.dropWhile_eq_nil_iff]
  intro b hb
  rw [decide_eq_true_eq]
  rintro rfl
  exact h hb

theorem dropWhile_append_cons {bytes : Bytes} {c : Byte} (h : c ∉ bytes) (rest : Bytes) :
    (bytes ++ c :: rest).dropWhile (· ≠ c) = c :: rest ∧
      (bytes ++ c :: rest).takeWhile (· ≠ c) = bytes := by
  have hne : ∀ b ∈ bytes, decide (b ≠ c) = true := by
    intro b hb
    rw [decide_eq_true_eq]
    rintro rfl
    exact h hb
  constructor
  · rw [List.dropWhile_append_of_pos hne]
    simp
  · rw [List.takeWhile_append_of_pos hne]
    simp

/-- A packet that has not arrived as a whole is left in the buffer. -/
theorem nextPayload_short {buf junk body : Bytes}
    (hbuf : buf.dropWhile isAck = junk ++ byte '$' :: body) (hjunk : byte '$' ∉ junk)
    (hshort : (body.dropWhile (· ≠ byte '#')).length ≤ 2) :
    nextPayload buf = (none, junk ++ byte '$' :: body) := by
  have hstart := (dropWhile_append_cons hjunk body).1
  unfold nextPayload
  simp only [hbuf, hstart]
  match hend : body.dropWhile (· ≠ byte '#') with
  | [] | [_] | [_, _] => rfl
  | _ :: _ :: _ :: _ =>
      rw [hend] at hshort
      simp at hshort

theorem nextPayload_frame {acks payload : Bytes} (hacks : Acks acks) (hpayload : Framable payload)
    (rest : Bytes) : nextPayload (acks ++ (frame payload ++ rest)) = (some payload, rest) := by
  obtain ⟨hdrop, htake⟩ := dropWhile_append_cons hpayload
    (hexDigit ((checksum payload).toNat / 16) :: hexDigit ((checksum payload).toNat % 16) :: rest)
  have hstart : (frame payload ++ rest).dropWhile (· ≠ byte '$') = frame payload ++ rest := by
    simp [frame]
  have hbody : frame payload ++ rest = byte '$' :: (payload ++ byte '#' ::
      hexDigit ((checksum payload).toNat / 16) :: hexDigit ((checksum payload).toNat % 16) ::
        rest) := by
    simp [frame]
  unfold nextPayload
  rw [dropWhile_acks hacks, dropWhile_frame]
  simp only [hstart]
  rw [hbody]
  simp only [hdrop, htake, checksumMatches_frame, if_true]

/-- A frame of which a part has arrived is left in the buffer. -/
private theorem nextPayload_partial {acks payload buf missing : Bytes} (hacks : Acks acks)
    (hpayload : Framable payload) (hmissing : missing ≠ []) (hne : buf ≠ [])
    (hbuf : frame payload = buf ++ missing) : nextPayload (acks ++ buf) = (none, buf) := by
  obtain ⟨first, body, rfl⟩ := List.exists_cons_of_ne_nil hne
  rw [frame, List.cons_append, List.cons.injEq] at hbuf
  obtain ⟨rfl, hbody⟩ := hbuf
  -- the end of the frame has not arrived, or the checksum digits are not both there
  have hshort : (body.dropWhile (· ≠ byte '#')).length ≤ 2 := by
    rcases List.append_eq_append_iff.mp hbody with ⟨tail, rfl, hdigits⟩ | ⟨tail, rfl, -⟩
    · cases tail with
      | nil =>
          rw [List.append_nil, dropWhile_notMem hpayload]
          exact Nat.zero_le 2
      | cons c tail =>
          rw [List.cons_append, List.cons.injEq] at hdigits
          obtain ⟨rfl, hdigits⟩ := hdigits
          rw [(dropWhile_append_cons hpayload tail).1, List.length_cons]
          have hlen := congrArg List.length hdigits
          have hpos := List.length_pos_iff.mpr hmissing
          simp only [List.length_append, List.length_cons, List.length_nil] at hlen
          omega
    · rw [dropWhile_notMem fun hmem => hpayload (List.mem_append_left _ hmem)]
      exact Nat.zero_le 2
  have hack : (acks ++ byte '$' :: body).dropWhile isAck = [] ++ byte '$' :: body :=
    dropWhile_acks hacks _
  exact nextPayload_short hack List.not_mem_nil hshort

/-- While a part of the first frame is missing, nothing is taken and nothing but
acks is dropped. -/
theorem nextPayload_missing {acks payload buf missing : Bytes} (hacks : Acks acks)
    (hpayload : Framable payload) (hmissing : missing ≠ [])
    (hbuf : buf ++ missing = acks ++ frame payload) :
    ∃ acks' buf', nextPayload buf = (none, buf') ∧ Acks acks' ∧
      buf' ++ missing = acks' ++ frame payload := by
  rcases List.append_eq_append_iff.mp hbuf with ⟨acks', rfl, rfl⟩ | ⟨part, rfl, hpart⟩
  · -- nothing but acks has arrived
    exact ⟨acks', [], nextPayload_acks fun c hc => hacks c (List.mem_append_left _ hc),
      fun c hc => hacks c (List.mem_append_right _ hc), rfl⟩
  · by_cases hne : part = []
    · subst hne
      exact ⟨[], [], by rw [List.append_nil, nextPayload_acks hacks], acks_nil, hpart.symm⟩
    · exact ⟨[], part, nextPayload_partial hacks hpayload hmissing hne hpart, acks_nil,
        hpart.symm⟩

/-- **The decoder on a part of a stream**: it takes the first payload of the
stream, or the stream stays what it was. -/
theorem nextPayload_spec {buf rest : Bytes} {payloads : List Bytes}
    (h : Encodes (buf ++ rest) payloads) :
    (∃ payload buf' payloads', nextPayload buf = (some payload, buf') ∧
        payloads = payload :: payloads' ∧ Encodes (buf' ++ rest) payloads') ∨
      (∃ buf', nextPayload buf = (none, buf') ∧ Encodes (buf' ++ rest) payloads) := by
  generalize hstream : buf ++ rest = stream at h
  cases h with
  | acks hbytes =>
      subst hstream
      refine Or.inr ⟨[], nextPayload_acks fun c hc => hbytes c (List.mem_append_left _ hc), ?_⟩
      exact .acks fun c hc => hbytes c (List.mem_append_right _ hc)
  | @frame acks payload tail payloads' hacks hpayload htail =>
      rw [← List.append_assoc] at hstream
      -- the buffer ends within the first frame, or it reaches beyond it
      rcases List.append_eq_append_iff.mp hstream with ⟨missing, hbuf, rfl⟩ | ⟨more, rfl, rfl⟩
      · by_cases hmissing : missing = []
        · subst hmissing
          have htaken := nextPayload_frame hacks hpayload []
          rw [List.append_nil, hbuf, List.append_nil] at htaken
          exact Or.inl ⟨payload, [], payloads', htaken, rfl, htail⟩
        · obtain ⟨acks', buf', hnone, hacks', hbuf'⟩ :=
            nextPayload_missing hacks hpayload hmissing hbuf.symm
          refine Or.inr ⟨buf', hnone, ?_⟩
          rw [← List.append_assoc, hbuf', List.append_assoc]
          exact .frame hacks' hpayload htail
      · refine Or.inl ⟨payload, more, payloads', ?_, rfl, htail⟩
        rw [List.append_assoc, nextPayload_frame hacks hpayload more]

end Irida.Proto
