import Irida.Transport.GdbClient

/-!
# Data and errors

`read_memory` gets data as hexadecimal text and errors as an `E` and two digits, and asks for an
error first.  The text of data has an even number of digits, so it is never an `E` and exactly two
digits.  But `reply_error_code` does not look at what follows the two digits.  So data whose first
digit is an `E` in upper case is taken for an error, unless it is a single byte
(`readMemory_toldApart_iff`).
-/

namespace Irida.Transport.GdbClient

open Host Proto

/-- The reply of a target that could not do what was asked for. -/
def IsErrorReply (t : Bytes) : Prop :=
  ∃ hi lo, t = [byte 'E', hi, lo] ∧ (hexval hi).isSome ∧ (hexval lo).isSome

/-- A reply of more than two characters that starts with an upper-case `E`. -/
def StartsLikeError (t : Bytes) : Prop :=
  t.head? = some (byte 'E') ∧ 2 < t.length

theorem isSome_of_hexDecodeLoop {t out b : Bytes} (heven : t.length % 2 = 0)
    (h : hexDecodeLoop t out = .ok b) : ∀ c ∈ t, (hexval c).isSome := by
  fun_induction hexDecodeLoop t out with
  | case1 hi lo rest out x y hlo hhi ih =>
      have hrest := ih (by simp only [List.length_cons] at heven; omega) h
      simp only [List.forall_mem_cons]
      exact ⟨Option.isSome_iff_exists.mpr ⟨x, hhi⟩, Option.isSome_iff_exists.mpr ⟨y, hlo⟩, hrest⟩
  | case2 => cases h
  | case3 t out hshort =>
      cases t with
      | nil => exact fun c hc => absurd hc List.not_mem_nil
      | cons hi t =>
          cases t with
          | nil => cases heven
          | cons lo rest => exact absurd rfl (hshort hi lo rest)

theorem length_of_hexDecodeLoop {t out b : Bytes} (h : hexDecodeLoop t out = .ok b) :
    b.length = out.length + t.length / 2 := by
  fun_induction hexDecodeLoop t out with
  | case1 hi lo rest out x y hlo hhi ih =>
      rw [ih h, List.length_append, List.length_singleton, List.length_cons, List.length_cons]
      omega
  | case2 => cases h
  | case3 t out hshort =>
      cases h
      cases t with
      | nil => rfl
      | cons hi t =>
          cases t with
          | nil => simp
          | cons lo rest => exact absurd rfl (hshort hi lo rest)

/-- Data is spelled by two digits for each of its bytes. -/
theorem digits_of_hexDecode {t b : Bytes} (h : hexDecode t = .ok b) :
    t.length = 2 * b.length ∧ ∀ c ∈ t, (hexval c).isSome := by
  rw [hexDecode] at h
  split at h
  · cases h
  · next heven =>
      have hlen := length_of_hexDecodeLoop h
      rw [List.length_nil] at hlen
      exact ⟨by omega, isSome_of_hexDecodeLoop (by omega) h⟩

theorem parseHexByte_of_digits {s : Bytes} (hlen : 2 ≤ s.length)
    (h : ∀ c ∈ s, (hexval c).isSome) : ∃ code, parseHexByte s = some code := by
  obtain ⟨hi, lo, rest, rfl⟩ : ∃ hi lo rest, s = hi :: lo :: rest := by
    cases s with
    | nil => cases hlen
    | cons hi s =>
        cases s with
        | nil => simp at hlen
        | cons lo rest => exact ⟨hi, lo, rest, rfl⟩
  obtain ⟨x, hx⟩ := Option.isSome_iff_exists.mp (h hi (by simp))
  obtain ⟨y, hy⟩ := Option.isSome_iff_exists.mp (h lo (by simp))
  exact ⟨_, by rw [parseHexByte, hx, hy]⟩

/-- Data is taken for an error exactly if it starts like one. -/
theorem replyErrorCode_of_data {t b : Bytes} (h : hexDecode t = .ok b) :
    replyErrorCode t = none ↔ ¬ StartsLikeError t := by
  obtain ⟨-, hdigits⟩ := digits_of_hexDecode h
  constructor
  · rintro hnone ⟨hhead, hlen⟩
    have htail : ∀ c ∈ t.tail, (hexval c).isSome := fun c hc =>
      hdigits c (List.mem_of_mem_tail hc)
    obtain ⟨code, hcode⟩ :=
      parseHexByte_of_digits (s := t.tail) (by rw [List.length_tail]; omega) htail
    rw [replyErrorCode, if_pos ⟨hlen, hhead⟩, hcode] at hnone
    cases hnone
  · intro hnot
    exact if_neg fun herror => hnot ⟨herror.2, herror.1⟩

theorem replyErrorCode_of_error {t : Bytes} (h : IsErrorReply t) :
    ∃ code, replyErrorCode t = some code := by
  obtain ⟨hi, lo, rfl, hhi, hlo⟩ := h
  obtain ⟨code, hcode⟩ := parseHexByte_of_digits (s := [hi, lo]) le_rfl (by simp [hhi, hlo])
  exact ⟨code, (if_pos ⟨le_rfl, rfl⟩).trans hcode⟩

section

variable {server : Server} {addr len : U64} {c c' : GdbClient} {t : Bytes}

theorem readMemory_of_transact
    (h : transact server (reqReadMemory addr len) c = (.ok t, c')) :
    (replyErrorCode t = none → c.readMemory server addr len = (hexDecode t, c')) ∧
      ∀ code, replyErrorCode t = some code →
        ∃ e, c.readMemory server addr len = (.error e, c') := by
  constructor
  · intro hnone
    rw [readMemory, h]
    simp only [hnone]
  · intro code hsome
    refine ⟨"read_memory: target error E" ++ toString code, ?_⟩
    rw [readMemory, h]
    simp only [hsome]

/-- **When data and errors are told apart.**  Whatever data the reply spells is returned, and an
error reply is an error: exactly if the reply is not data that starts like an error. -/
theorem readMemory_toldApart_iff
    (h : transact server (reqReadMemory addr len) c = (.ok t, c')) :
    ((∀ b, b ≠ [] → hexDecode t = .ok b → c.readMemory server addr len = (.ok b, c')) ∧
      (IsErrorReply t → ∃ e, c.readMemory server addr len = (.error e, c'))) ↔
    ¬ (StartsLikeError t ∧ ∃ b, hexDecode t = .ok b) := by
  obtain ⟨hdata, herror⟩ := readMemory_of_transact h
  constructor
  · rintro ⟨htold, -⟩ ⟨hstart, b, hb⟩
    have hne : b ≠ [] := by
      rintro rfl
      have hlen := (digits_of_hexDecode hb).1
      have hlong := hstart.2
      rw [hlen] at hlong
      cases hlong
    have hread := htold b hne hb
    cases hcode : replyErrorCode t with
    | none => exact (replyErrorCode_of_data hb).mp hcode hstart
    | some code =>
        obtain ⟨e, he⟩ := herror code hcode
        rw [hread] at he
        cases he
  · intro hnot
    refine ⟨fun b _ hb => ?_, fun hreply => ?_⟩
    · rw [hdata ((replyErrorCode_of_data hb).mpr fun hstart => hnot ⟨hstart, b, hb⟩), hb]
    · obtain ⟨code, hcode⟩ := replyErrorCode_of_error hreply
      exact herror code hcode

end

/-! ## Data that starts like an error -/

/-- Answers every request with two bytes, in upper case. -/
def upperServer : Server :=
  fun _ => [{ payload := ascii "E012" }]

private theorem transact_upper :
    transact upperServer (reqReadMemory 0x1000 2) { sock := { arrivals := [.bytes 512] } } =
      (.ok (ascii "E012"),
        { sock := { requests := [frame (reqReadMemory 0x1000 2)] }, decoder := [] }) := by
  decide

theorem readMemory_toldApart_iff_upper :
    ((∀ b, b ≠ [] → hexDecode (ascii "E012") = .ok b →
        readMemory upperServer 0x1000 2 { sock := { arrivals := [.bytes 512] } } =
          (.ok b, { sock := { requests := [frame (reqReadMemory 0x1000 2)] }, decoder := [] })) ∧
      (IsErrorReply (ascii "E012") → ∃ e,
        readMemory upperServer 0x1000 2 { sock := { arrivals := [.bytes 512] } } =
          (.error e,
            { sock := { requests := [frame (reqReadMemory 0x1000 2)] }, decoder := [] }))) ↔
    ¬ (StartsLikeError (ascii "E012") ∧ ∃ b, hexDecode (ascii "E012") = .ok b) :=
  readMemory_toldApart_iff transact_upper

/-- **Data is taken for an error.**  The two bytes `E0 12` are returned as the error `1`. -/
theorem not_readMemory_toldApart :
    hexDecode (ascii "E012") = .ok [0xE0, 0x12] ∧
    transact upperServer (reqReadMemory 0x1000 2) { sock := { arrivals := [.bytes 512] } } =
      (.ok (ascii "E012"),
        { sock := { requests := [frame (reqReadMemory 0x1000 2)] }, decoder := [] }) ∧
    (readMemory upperServer 0x1000 2 { sock := { arrivals := [.bytes 512] } }).1 =
      .error "read_memory: target error E1" := by
  refine ⟨by decide, transact_upper, ?_⟩
  rw [readMemory, transact_upper]
  rfl

end Irida.Transport.GdbClient
