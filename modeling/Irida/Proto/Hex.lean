import Irida.Base

/-!
# Hexadecimal text

`hex.cpp`: the encoding of binary data in packets.  Digits are written in lower
case and read in either case.
-/

namespace Irida.Proto

/-- `hexval`; `none` stands for `-1`. -/
def hexval (c : Byte) : Option ℕ :=
  if byte '0' ≤ c ∧ c ≤ byte '9' then some (c.toNat - (byte '0').toNat)
  else if byte 'a' ≤ c ∧ c ≤ byte 'f' then some (c.toNat - (byte 'a').toNat + 10)
  else if byte 'A' ≤ c ∧ c ≤ byte 'F' then some (c.toNat - (byte 'A').toNat + 10)
  else none

/-- `digits[d]`. -/
def hexDigit (d : ℕ) : Byte :=
  (ascii "0123456789abcdef").getD d 0

theorem hexval_hexDigit {d : ℕ} (h : d < 16) : hexval (hexDigit d) = some d := by
  have hall : ∀ d : Fin 16, hexval (hexDigit d) = some d.val := by decide
  exact hall ⟨d, h⟩

/-- `hex_encode`. -/
def hexEncode (bytes : Bytes) : Bytes :=
  bytes.flatMap fun b => [hexDigit (b.toNat / 16), hexDigit (b.toNat % 16)]

/-- The loop of `hex_decode`. -/
def hexDecodeLoop : Bytes → Bytes → Result Bytes
  | hi :: lo :: rest, out =>
    match hexval hi, hexval lo with
    | some hi, some lo => hexDecodeLoop rest (out ++ [BitVec.ofNat 8 (16 * hi + lo)])
    | _, _ => .error "hex_decode: invalid digit"
  | _, out => .ok out

/-- `hex_decode`. -/
def hexDecode (hex : Bytes) : Result Bytes :=
  if hex.length % 2 ≠ 0 then .error "hex_decode: odd length"
  else hexDecodeLoop hex []

theorem hexEncode_cons (b : Byte) (bytes : Bytes) :
    hexEncode (b :: bytes) =
      hexDigit (b.toNat / 16) :: hexDigit (b.toNat % 16) :: hexEncode bytes :=
  rfl

@[simp] theorem length_hexEncode (bytes : Bytes) : (hexEncode bytes).length = 2 * bytes.length := by
  induction bytes with
  | nil => rfl
  | cons b bytes ih =>
      simp only [hexEncode_cons, List.length_cons, ih]
      omega

theorem hexDecodeLoop_hexEncode (bytes out : Bytes) :
    hexDecodeLoop (hexEncode bytes) out = .ok (out ++ bytes) := by
  induction bytes generalizing out with
  | nil => simp [hexEncode, hexDecodeLoop]
  | cons b bytes ih =>
      have hb := b.isLt
      have hbyte : BitVec.ofNat 8 (16 * (b.toNat / 16) + b.toNat % 16) = b := by
        rw [Nat.div_add_mod, BitVec.ofNat_toNat, BitVec.setWidth_eq]
      rw [hexEncode_cons, hexDecodeLoop, hexval_hexDigit (by omega), hexval_hexDigit (by omega)]
      simp only [hbyte, ih, List.append_assoc, List.singleton_append]

/-- **What is encoded decodes to itself.** -/
theorem hexDecode_hexEncode (bytes : Bytes) : hexDecode (hexEncode bytes) = .ok bytes := by
  have heven : ¬ (hexEncode bytes).length % 2 ≠ 0 := by simp
  rw [hexDecode, if_neg heven, hexDecodeLoop_hexEncode, List.nil_append]

/-! ## What is read -/

/-- The digits that are read. -/
def hexDigits : Bytes :=
  ascii "0123456789abcdefABCDEF"

/-- A character, lowered if it is a letter. -/
def lowered (c : Byte) : Byte :=
  if byte 'A' ≤ c ∧ c ≤ byte 'Z' then c + 0x20 else c

theorem hexval_isSome_iff (c : Byte) : (∃ d, hexval c = some d) ↔ c ∈ hexDigits := by
  have hall : ∀ c : Fin 256,
      (hexval (BitVec.ofFin c)).isSome = true ↔ BitVec.ofFin c ∈ hexDigits := by decide +kernel
  rw [← Option.isSome_iff_exists]
  exact hall c.toFin

theorem hexDigit_hexval {c : Byte} {d : ℕ} (h : hexval c = some d) :
    d < 16 ∧ hexDigit d = lowered c := by
  have hall : ∀ c : Fin 256, ∀ d ∈ hexval (BitVec.ofFin c),
      d < 16 ∧ hexDigit d = lowered (BitVec.ofFin c) := by decide +kernel
  exact hall c.toFin d h

theorem hexEncode_digits {hi lo : Byte} {d e : ℕ} (hhi : hexval hi = some d)
    (hlo : hexval lo = some e) (bytes : Bytes) :
    hexEncode (BitVec.ofNat 8 (16 * d + e) :: bytes) =
      lowered hi :: lowered lo :: hexEncode bytes := by
  obtain ⟨hd, hdigit⟩ := hexDigit_hexval hhi
  obtain ⟨he, hdigit'⟩ := hexDigit_hexval hlo
  have hvalue : (BitVec.ofNat 8 (16 * d + e)).toNat = 16 * d + e := by
    rw [BitVec.toNat_ofNat]
    exact Nat.mod_eq_of_lt (by omega)
  have hhigh : (16 * d + e) / 16 = d := by omega
  have hlow : (16 * d + e) % 16 = e := by omega
  rw [hexEncode_cons, hvalue, hhigh, hlow, hdigit, hdigit']

/-- Pairs of digits are read, as bytes that are written in these digits. -/
theorem hexDecodeLoop_digits (s out : Bytes) (heven : s.length % 2 = 0)
    (hdigits : ∀ c ∈ s, c ∈ hexDigits) :
    ∃ bytes, hexDecodeLoop s out = .ok (out ++ bytes) ∧ hexEncode bytes = s.map lowered := by
  induction s, out using hexDecodeLoop.induct with
  | case1 hi lo rest out d e hlo hhi ih =>
      rw [List.length_cons, List.length_cons] at heven
      obtain ⟨bytes, hloop, hbytes⟩ := ih (by omega) fun c hc => hdigits c (by simp [hc])
      refine ⟨BitVec.ofNat 8 (16 * d + e) :: bytes, ?_, ?_⟩
      · rw [hexDecodeLoop, hhi, hlo]
        simpa using hloop
      · rw [hexEncode_digits hhi hlo, hbytes, List.map_cons, List.map_cons]
  | case2 hi lo rest out hinvalid =>
      obtain ⟨d, hd⟩ := (hexval_isSome_iff hi).mpr (hdigits hi (by simp))
      obtain ⟨e, he⟩ := (hexval_isSome_iff lo).mpr (hdigits lo (by simp))
      exact absurd he (hinvalid d e hd)
  | case3 s out hshort =>
      rcases s with _ | ⟨c, _ | ⟨c', rest⟩⟩
      · exact ⟨[], by simp [hexDecodeLoop], rfl⟩
      · simp at heven
      · exact absurd rfl (hshort c c' rest)

theorem digits_of_hexDecodeLoop (s out : Bytes) (heven : s.length % 2 = 0) {b : Bytes}
    (h : hexDecodeLoop s out = .ok b) : ∀ c ∈ s, c ∈ hexDigits := by
  induction s, out using hexDecodeLoop.induct with
  | case1 hi lo rest out d e hlo hhi ih =>
      rw [List.length_cons, List.length_cons] at heven
      rw [hexDecodeLoop, hhi, hlo] at h
      have hrest := ih (by omega) h
      rw [List.forall_mem_cons, List.forall_mem_cons]
      exact ⟨(hexval_isSome_iff hi).mp ⟨d, hhi⟩, (hexval_isSome_iff lo).mp ⟨e, hlo⟩, hrest⟩
  | case2 hi lo rest out hinvalid =>
      unfold hexDecodeLoop at h
      split at h
      · next d e hhi hlo => exact absurd hlo (hinvalid d e hhi)
      · cases h
  | case3 s out hshort =>
      rcases s with _ | ⟨c, _ | ⟨c', rest⟩⟩
      · simp
      · simp at heven
      · exact absurd rfl (hshort c c' rest)

theorem hexDecode_eq_ok {s b : Bytes} (h : hexDecode s = .ok b) :
    s.length % 2 = 0 ∧ hexDecodeLoop s [] = .ok b := by
  unfold hexDecode at h
  split at h
  · cases h
  · next heven => exact ⟨not_not.mp heven, h⟩

/-- A text writes bytes in pairs of digits, in either case. -/
def Writes (text bytes : Bytes) : Prop :=
  (∀ c ∈ text, c ∈ hexDigits) ∧ text.map lowered = hexEncode bytes

instance (text bytes : Bytes) : Decidable (Writes text bytes) := by unfold Writes; infer_instance

/-- What is written is read, in whatever case. -/
theorem hexDecode_of_writes {text bytes : Bytes} (h : Writes text bytes) :
    hexDecode text = .ok bytes := by
  have heven : text.length % 2 = 0 := by
    rw [← List.length_map lowered, h.2, length_hexEncode]
    exact Nat.mul_mod_right 2 _
  obtain ⟨bytes', hloop, hencode⟩ := hexDecodeLoop_digits text [] heven h.1
  have hsame := hexDecode_hexEncode bytes'
  rw [hencode, h.2, hexDecode_hexEncode] at hsame
  rw [hexDecode, if_neg (not_not.mpr heven), hloop, List.nil_append, Except.ok.inj hsame]

theorem digits_of_writes {text : Bytes} {b : Byte} (h : Writes text [b]) :
    ∃ hi lo, text = [hi, lo] ∧ hexval hi = some (b.toNat / 16) ∧
      hexval lo = some (b.toNat % 16) := by
  obtain ⟨hdigits, hencode⟩ := h
  have hlt := b.isLt
  obtain ⟨hi, lo, rfl⟩ : ∃ hi lo, text = [hi, lo] := by
    have hlength := congrArg List.length hencode
    rw [List.length_map, length_hexEncode] at hlength
    exact List.length_eq_two.mp hlength
  have hlowered : lowered hi = hexDigit (b.toNat / 16) ∧ lowered lo = hexDigit (b.toNat % 16) := by
    simpa [hexEncode] using hencode
  have hvalue : ∀ c ∈ [hi, lo], ∀ d < 16, lowered c = hexDigit d → hexval c = some d := by
    intro c hc d hd heq
    obtain ⟨e, he⟩ := (hexval_isSome_iff c).mpr (hdigits c hc)
    obtain ⟨hlt, hdigit⟩ := hexDigit_hexval he
    have hsame := hexval_hexDigit hlt
    rw [hdigit, heq, hexval_hexDigit hd] at hsame
    rw [he, hsame]
  exact ⟨hi, lo, rfl, hvalue hi (by simp) _ (by omega) hlowered.1,
    hvalue lo (by simp) _ (by omega) hlowered.2⟩

/-- **The codec**: decoding undoes encoding, the strings that are decoded are those of an even
number of digits, and encoding undoes decoding but for the case of the letters. -/
theorem hexCodec :
    (∀ b, hexDecode (hexEncode b) = .ok b) ∧
      (∀ s, (∃ b, hexDecode s = .ok b) ↔ s.length % 2 = 0 ∧ ∀ c ∈ s, c ∈ hexDigits) ∧
      ∀ s b, hexDecode s = .ok b → hexEncode b = s.map lowered := by
  have hdecode : ∀ s, s.length % 2 = 0 → (∀ c ∈ s, c ∈ hexDigits) →
      ∃ b, hexDecode s = .ok b ∧ hexEncode b = s.map lowered := by
    intro s heven hdigits
    obtain ⟨bytes, hloop, hbytes⟩ := hexDecodeLoop_digits s [] heven hdigits
    exact ⟨bytes, by rw [hexDecode, if_neg (not_not.mpr heven), hloop, List.nil_append], hbytes⟩
  have haccepted : ∀ s b, hexDecode s = .ok b → s.length % 2 = 0 ∧ ∀ c ∈ s, c ∈ hexDigits := by
    intro s b h
    obtain ⟨heven, hloop⟩ := hexDecode_eq_ok h
    exact ⟨heven, digits_of_hexDecodeLoop s [] heven hloop⟩
  refine ⟨hexDecode_hexEncode, fun s => ⟨?_, ?_⟩, fun s b h => ?_⟩
  · rintro ⟨b, h⟩
    exact haccepted s b h
  · rintro ⟨heven, hdigits⟩
    obtain ⟨b, h, -⟩ := hdecode s heven hdigits
    exact ⟨b, h⟩
  · obtain ⟨heven, hdigits⟩ := haccepted s b h
    obtain ⟨b', h', hencode⟩ := hdecode s heven hdigits
    obtain rfl : b = b' := Except.ok.inj (h.symm.trans h')
    exact hencode

end Irida.Proto
