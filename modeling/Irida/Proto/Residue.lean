import Irida.Proto.Decoder

/-!
# What is left in a decoder

A decoder that is given a second stream still holds the end of the first one.  What it returns from
then on is a packet of the second stream if what it holds is harmless: it contains no good packet,
and does not end within a packet that further bytes can make a good one.

`Provenance` says how a buffer is made up of the two streams, and `Provenance.nextPayload` that
taking a payload keeps this and takes it from the second stream.  Conversely `completion` gives the
few bytes that turn a harmful buffer into a payload.
-/

namespace Irida.Proto

/-- Further bytes can make a good packet of the one that has been begun. -/
def Completable : PacketState → Prop
  | .outside => False
  | .payload _ | .hi _ => True
  | .lo payload hi => ∃ lo, checksumMatches payload hi lo = true

/-- A buffer that no payload can come from, whatever is fed behind it. -/
structure Harmless (buf : Bytes) : Prop where
  refused : ∀ p ∈ packets buf, p.accepted = none
  open_end : ¬ Completable (packetScanner.after .outside buf)

theorem harmless_nil : Harmless [] :=
  ⟨fun _ hp => absurd hp List.not_mem_nil, id⟩

/-! ## Packets and their starts -/

/-- Bytes without the start of a packet change nothing for what comes behind them. -/
theorem harmless_junk_append {junk : Bytes} (hjunk : byte '$' ∉ junk) (buf : Bytes) :
    Harmless (junk ++ buf) ↔ Harmless buf := by
  obtain ⟨hfound, hafter⟩ := scan_junk hjunk
  have hpackets : packets (junk ++ buf) = packets buf := by
    show packetScanner.found .outside _ = packetScanner.found .outside buf
    rw [Scanner.found_append, hfound, hafter, List.nil_append]
  have hend : packetScanner.after .outside (junk ++ buf) = packetScanner.after .outside buf := by
    rw [Scanner.after_append, hafter]
  constructor
  · rintro ⟨hrefused, hopen⟩
    exact ⟨hpackets ▸ hrefused, hend ▸ hopen⟩
  · rintro ⟨hrefused, hopen⟩
    exact ⟨hpackets.symm ▸ hrefused, hend.symm ▸ hopen⟩

theorem harmless_packet_append {p : RawPacket} (hpayload : byte '#' ∉ p.payload) (buf : Bytes) :
    Harmless (p.bytes ++ buf) ↔ p.accepted = none ∧ Harmless buf := by
  obtain ⟨hfound, hafter⟩ := scan_packet hpayload
  have hpackets : packets (p.bytes ++ buf) = p :: packets buf := by
    show packetScanner.found .outside _ = p :: packetScanner.found .outside buf
    rw [Scanner.found_append, hfound, hafter]
    rfl
  have hend : packetScanner.after .outside (p.bytes ++ buf) = packetScanner.after .outside buf := by
    rw [Scanner.after_append, hafter]
  constructor
  · rintro ⟨hrefused, hopen⟩
    rw [hpackets, List.forall_mem_cons] at hrefused
    exact ⟨hrefused.1, hrefused.2, hend ▸ hopen⟩
  · rintro ⟨hnone, hrefused, hopen⟩
    exact ⟨hpackets.symm ▸ List.forall_mem_cons.mpr ⟨hnone, hrefused⟩, hend.symm ▸ hopen⟩

theorem completable_of_start {p : RawPacket} (hpayload : byte '#' ∉ p.payload)
    (hgood : p.accepted.isSome) {first rest : Bytes} (hsplit : p.bytes = first ++ rest)
    (hfirst : first ≠ []) (hrest : rest ≠ []) :
    Completable (packetScanner.after .outside first) := by
  obtain ⟨c, body, rfl⟩ := List.exists_cons_of_ne_nil hfirst
  rw [RawPacket.bytes, List.cons_append, List.cons.injEq] at hsplit
  obtain ⟨rfl, hsplit⟩ := hsplit
  -- how far the payload has been read
  change Completable (packetScanner.after (.payload []) body)
  rcases List.append_eq_append_iff.mp hsplit with ⟨tail, rfl, htail⟩ | ⟨more, hmore, -⟩
  · rw [Scanner.after_append, (scan_payload hpayload []).2]
    rcases tail with _ | ⟨c, _ | ⟨hi, _ | ⟨lo, tail⟩⟩⟩
    · exact trivial
    · obtain ⟨rfl, -⟩ := List.cons.inj htail
      exact trivial
    · obtain ⟨hc, htail⟩ := List.cons.inj htail
      obtain ⟨hhi, -⟩ := List.cons.inj htail
      rw [← hc, ← hhi]
      refine ⟨p.lo, ?_⟩
      unfold RawPacket.accepted at hgood
      split at hgood
      · next hmatch => exact hmatch
      · cases hgood
    · have hlen := congrArg List.length htail
      have hpos := List.length_pos_iff.mpr hrest
      simp only [List.length_append, List.length_cons, List.length_nil] at hlen
      omega
  · have hbody : byte '#' ∉ body := fun hmem => hpayload (hmore ▸ List.mem_append_left more hmem)
    rw [(scan_payload hbody []).2]
    exact trivial

/-! ## Two streams in one buffer -/

/-- A buffer that consists of the end of one stream and the start of another one, of which the
bytes `received` have been fed: what is left of the old one is harmless, and nothing is left of it
once something of the new one is gone. -/
def Provenance (received buf : Bytes) : Prop :=
  ∃ gone old new, buf = old ++ new ∧ received = gone ++ new ∧ Harmless old ∧ (old = [] ∨ gone = [])

theorem Provenance.feed {received buf : Bytes} (h : Provenance received buf) (bytes : Bytes) :
    Provenance (received ++ bytes) (buf ++ bytes) := by
  obtain ⟨gone, old, new, rfl, rfl, hold, hgone⟩ := h
  exact ⟨gone, old, new ++ bytes, List.append_assoc .., List.append_assoc .., hold, hgone⟩

theorem Provenance.drop {received junk buf : Bytes} (h : Provenance received (junk ++ buf))
    (hjunk : byte '$' ∉ junk) : Provenance received buf := by
  obtain ⟨gone, old, new, hbuf, rfl, hold, hgone⟩ := h
  rcases List.append_eq_append_iff.mp hbuf with ⟨old', rfl, rfl⟩ | ⟨junk', rfl, rfl⟩
  · refine ⟨gone, old', new, rfl, rfl, (harmless_junk_append hjunk old').mp hold, ?_⟩
    exact hgone.imp_left fun hnil => (List.append_eq_nil_iff.mp hnil).2
  · exact ⟨gone ++ junk', [], buf, rfl, (List.append_assoc ..).symm, harmless_nil, Or.inl rfl⟩

theorem Provenance.take {received rest : Bytes} {p : RawPacket}
    (h : Provenance received (p.bytes ++ rest)) (hpayload : byte '#' ∉ p.payload) :
    Provenance received rest ∧
      (p.accepted.isSome → ∃ gone, received = gone ++ (p.bytes ++ rest)) := by
  obtain ⟨gone, old, new, hbuf, rfl, hold, hgone⟩ := h
  rcases List.append_eq_append_iff.mp hbuf with ⟨old', rfl, rfl⟩ | ⟨last, hlast, rfl⟩
  · -- the whole packet is left from the old stream
    obtain ⟨hnone, hold'⟩ := (harmless_packet_append hpayload old').mp hold
    have hnil : gone = [] := by
      refine hgone.resolve_left fun hnil => ?_
      cases hnil
    exact ⟨⟨gone, old', new, rfl, rfl, hold', Or.inr hnil⟩, fun hgood => by simp [hnone] at hgood⟩
  · have hrest : Provenance (gone ++ (last ++ rest)) rest :=
      ⟨gone ++ last, [], rest, rfl, (List.append_assoc ..).symm, harmless_nil, Or.inl rfl⟩
    refine ⟨hrest, fun hgood => ?_⟩
    by_cases hnone : old = []
    · subst hnone
      rw [List.nil_append] at hlast
      exact ⟨gone, by rw [hlast]⟩
    by_cases hwhole : last = []
    · subst hwhole
      rw [List.append_nil] at hlast
      rw [← hlast, ← List.append_nil p.bytes, harmless_packet_append hpayload] at hold
      simp [hold.1] at hgood
    · exact absurd (completable_of_start hpayload hgood hlast hnone hwhole) hold.open_end

/-- **Payloads come from the new stream.** -/
theorem Provenance.nextPayload {received buf : Bytes} (h : Provenance received buf) :
    Provenance received (nextPayload buf).2 ∧
      ∀ payload, (Proto.nextPayload buf).1 = some payload → ∃ gone, ∃ p : RawPacket,
        received = gone ++ (p.bytes ++ (Proto.nextPayload buf).2) ∧ p.accepted = some payload := by
  rcases nextPayload_cases buf with ⟨hjunk, hcall⟩ | ⟨junk, p, rest, rfl, hjunk, hpayload, hcall⟩ |
    ⟨acks, junk, body, rfl, hacks, hjunk, -, hcall⟩
  · rw [hcall]
    rw [← List.append_nil buf] at h
    exact ⟨h.drop hjunk, fun _ hnone => by cases hnone⟩
  · rw [hcall]
    obtain ⟨hrest, hgood⟩ := (h.drop hjunk).take hpayload
    refine ⟨hrest, fun payload hsome => ?_⟩
    obtain ⟨gone, hreceived⟩ := hgood (by rw [show p.accepted = some payload from hsome]; rfl)
    exact ⟨gone, p, hreceived, hsome⟩
  · rw [hcall]
    exact ⟨h.drop hacks, fun _ hnone => by cases hnone⟩

/-! ## Completing what is left -/

/-- The bytes that complete a packet: its end, the checksum or the last digit. -/
theorem exists_completion {s : PacketState} (h : Completable s) :
    ∃ completion : Bytes, completion ≠ [] ∧ completion.length ≤ 3 ∧
      ∃ p, packetScanner.found s completion = [p] ∧ p.accepted.isSome := by
  cases s with
  | outside => exact h.elim
  | payload payload =>
      refine ⟨[byte '#', hexDigit ((checksum payload).toNat / 16),
        hexDigit ((checksum payload).toNat % 16)], by simp, by simp, ⟨payload, _, _⟩, rfl, ?_⟩
      rw [RawPacket.accepted, if_pos (checksumMatches_frame payload)]
      rfl
  | hi payload =>
      refine ⟨[hexDigit ((checksum payload).toNat / 16),
        hexDigit ((checksum payload).toNat % 16)], by simp, by simp, ⟨payload, _, _⟩, rfl, ?_⟩
      rw [RawPacket.accepted, if_pos (checksumMatches_frame payload)]
      rfl
  | lo payload hi =>
      obtain ⟨lo, hmatch⟩ := h
      refine ⟨[lo], by simp, by simp, ⟨payload, hi, lo⟩, rfl, ?_⟩
      rw [RawPacket.accepted, if_pos hmatch]
      rfl

theorem nextPayload_of_packets {buf : Bytes} {p : RawPacket} {rest : List RawPacket}
    (h : packets buf = p :: rest) :
    (nextPayload buf).1 = p.accepted ∧ packets (nextPayload buf).2 = rest :=
  takes_nextPayload.first buf p rest h

/-- What is not harmless and yields nothing is not harmless behind it. -/
theorem not_harmless_nextPayload {buf : Bytes} (h : ¬ Harmless buf)
    (hnone : (nextPayload buf).1 = none) : ¬ Harmless (nextPayload buf).2 := by
  rintro ⟨hrefused, hopen⟩
  apply h
  constructor
  · cases hpackets : packets buf with
    | nil => exact fun _ hp => absurd hp List.not_mem_nil
    | cons p rest =>
        obtain ⟨hfirst, hrest⟩ := nextPayload_of_packets hpackets
        rw [hrest] at hrefused
        exact List.forall_mem_cons.mpr ⟨hfirst.symm.trans hnone, hrefused⟩
  · have hend : packetScanner.after .outside (nextPayload buf).2 =
        packetScanner.after .outside buf := takes_nextPayload.after_take buf
    rwa [hend] at hopen

/-- A buffer without packets that is not harmless yields a payload once it is completed. -/
theorem nextPayload_completion {buf completion : Bytes} {p : RawPacket}
    (hpackets : packets buf = []) (hgood : p.accepted.isSome)
    (hcompletes : packetScanner.found (packetScanner.after .outside buf) completion = [p]) :
    (nextPayload buf).1 = none ∧
      ((nextPayload ((nextPayload buf).2 ++ completion)).1).isSome := by
  obtain ⟨hnone, hrest⟩ := takes_nextPayload.nothing buf hpackets
  have hend : packetScanner.after .outside (nextPayload buf).2 =
      packetScanner.after .outside buf := takes_nextPayload.after_take buf
  have hone : packets ((nextPayload buf).2 ++ completion) = [p] := by
    show packetScanner.found .outside _ = [p]
    rw [Scanner.found_append, show packetScanner.found .outside (nextPayload buf).2 = [] from hrest,
      hend, hcompletes]
    rfl
  refine ⟨hnone, ?_⟩
  rw [(nextPayload_of_packets hone).1]
  exact hgood

end Irida.Proto
