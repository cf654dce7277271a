import Irida.Backend.Gdb
import Irida.Lib.Numeral

/-!
# Requests and their reader

What the client sends is meant for a reader who knows the gdb-remote format: the first character
says which operation it is, and the numbers behind it are hexadecimal.  `readRequest` is such a
reader.  Its parameter is the radix in which it reads the size of a breakpoint, for this number is
the one that `packets.cpp` prints in decimal, with `std::to_string` in the place of `hexnum`.

A reader who reads the size in decimal too recovers every request (`readRequest_payload_ten`).  So
no two requests are sent as the same text.  The reader the format asks for recovers a request
exactly if its size, if it has one, is a single digit (`requests_recovered_iff`).
-/

namespace Irida.GdbBackend

open Proto

/-- The requests that the client sends.  The number of data bytes is a `size_t`. -/
inductive Request
  | readRegisters
  | readMemory (addr len : U64)
  | writeMemory (addr : U64) (data : Bytes) (fits : data.length < 2 ^ 64)
  | setBreakpoint (kind : Backend.BpKind) (addr : U64) (size : ℕ)
  | removeBreakpoint (kind : Backend.BpKind) (addr : U64) (size : ℕ)
  | cont
  | step
  | haltReason
  | qSupported
  deriving DecidableEq

namespace Request

/-- What is framed and sent. -/
def payload : Request → Bytes
  | readRegisters => reqReadRegisters
  | readMemory addr len => reqReadMemory addr len
  | writeMemory addr data _ => reqWriteMemory addr data
  | setBreakpoint kind addr size => reqSetBreakpoint (toGdbType kind) addr size
  | removeBreakpoint kind addr size => reqRemoveBreakpoint (toGdbType kind) addr size
  | cont => reqContinue
  | step => reqStep
  | haltReason => reqHaltReason
  | qSupported => reqQsupported

/-- The size of a breakpoint. -/
def size? : Request → Option ℕ
  | setBreakpoint _ _ size => some size
  | removeBreakpoint _ _ size => some size
  | _ => none

/-- The same request with another size. -/
def mapSize (f : ℕ → ℕ) : Request → Request
  | setBreakpoint kind addr size => setBreakpoint kind addr (f size)
  | removeBreakpoint kind addr size => removeBreakpoint kind addr (f size)
  | r => r

theorem mapSize_eq_self_iff (f : ℕ → ℕ) (r : Request) :
    r.mapSize f = r ↔ ∀ size, r.size? = some size → f size = size := by
  cases r <;> simp [mapSize, size?]

end Request

/-! ## The reader -/

/-- The parts before and behind the first separator. -/
def cut (sep : Byte) (s : Bytes) : Option (Bytes × Bytes) :=
  match s.span (· ≠ sep) with
  | (first, _ :: second) => some (first, second)
  | (_, []) => none

/-- A hexadecimal number of 64 bits. -/
def readWord (s : Bytes) : Option U64 :=
  (Numeral.read hexval 16 s).bind fun n => if n < 2 ^ 64 then some (BitVec.ofNat 64 n) else none

/-- The breakpoint kind of a type. -/
def bpKindOf : ℕ → Option Backend.BpKind
  | 0 => some .softwareExec
  | 1 => some .hardwareExec
  | 2 => some .writeWatch
  | 3 => some .readWatch
  | 4 => some .accessWatch
  | _ => none

/-- `addr,len`. -/
def readRange (s : Bytes) : Option Request := do
  let (addr, len) ← cut (byte ',') s
  let addr ← readWord addr
  let len ← readWord len
  some (.readMemory addr len)

/-- `addr,len:data`. -/
def readData (s : Bytes) : Option Request := do
  let (addr, rest) ← cut (byte ',') s
  let (len, digits) ← cut (byte ':') rest
  let addr ← readWord addr
  let len ← readWord len
  match hexDecode digits with
  | .error _ => none
  | .ok data =>
    if h : data.length = len.toNat then some (.writeMemory addr data (h ▸ len.isLt)) else none

/-- `type,addr,size`. -/
def readBreakpoint (radix : ℕ) (s : Bytes) : Option (Backend.BpKind × U64 × ℕ) := do
  let (type, rest) ← cut (byte ',') s
  let (addr, size) ← cut (byte ',') rest
  let type ← Numeral.read hexval 16 type
  let kind ← bpKindOf type
  let addr ← readWord addr
  let size ← Numeral.read hexval radix size
  some (kind, addr, size)

/-- A reader of requests that reads the sizes of breakpoints in a radix. -/
def readRequest (radix : ℕ) : Bytes → Option Request
  | [] => none
  | c :: body =>
    if c = byte 'm' then readRange body
    else if c = byte 'M' then readData body
    else if c = byte 'Z' then
      (readBreakpoint radix body).map fun (kind, addr, size) => .setBreakpoint kind addr size
    else if c = byte 'z' then
      (readBreakpoint radix body).map fun (kind, addr, size) => .removeBreakpoint kind addr size
    else if c :: body = ascii "g" then some .readRegisters
    else if c :: body = ascii "c" then some .cont
    else if c :: body = ascii "s" then some .step
    else if c :: body = ascii "?" then some .haltReason
    else if c :: body = ascii "qSupported" then some .qSupported
    else none

/-! ## Numbers are read back -/

theorem hexval_digitChar : ∀ d < 16, hexval (byte (Nat.digitChar d)) = some d := by
  intro d hd
  have hall : ∀ d : Fin 16, hexval (byte (Nat.digitChar d)) = some d.val := by decide
  exact hall ⟨d, hd⟩

theorem hexnum_eq (v : U64) : hexnum v = (Nat.toDigits 16 v.toNat).map byte := by
  rw [hexnum, ascii, String.toList_ofList]

theorem ascii_toString (n : ℕ) : ascii (toString (n : ℤ)) = (Nat.toDigits 10 n).map byte := by
  rw [ascii]
  exact congrArg _ Nat.toList_repr

theorem readWord_hexnum (v : U64) : readWord (hexnum v) = some v := by
  rw [readWord, hexnum_eq, Numeral.read_self (by decide) hexval_digitChar, Option.bind_some,
    if_pos v.isLt, BitVec.ofNat_toNat, BitVec.setWidth_eq]

theorem read_size {radix : ℕ} (hradix : 10 ≤ radix) (n : ℕ) :
    Numeral.read hexval radix (ascii (toString (n : ℤ))) = some (Numeral.reread 10 radix n) := by
  rw [ascii_toString]
  exact Numeral.read_toDigits (by decide) (fun d hd => hexval_digitChar d (by omega)) hradix n

theorem notMem_hexnum {c : Byte} (hc : hexval c = none) (v : U64) : c ∉ hexnum v := by
  rw [hexnum_eq]
  exact Numeral.notMem_toDigits (by decide) hexval_digitChar hc _

theorem notMem_toString {c : Byte} (hc : hexval c = none) (n : ℕ) :
    c ∉ ascii (toString (n : ℤ)) := by
  rw [ascii_toString]
  exact Numeral.notMem_toDigits (by decide) (fun d hd => hexval_digitChar d (by omega)) hc _

theorem cut_append {sep : Byte} {first : Bytes} (h : sep ∉ first) (second : Bytes) :
    cut sep (first ++ sep :: second) = some (first, second) := by
  rw [cut, List.span_eq_takeWhile_dropWhile, (dropWhile_append_cons h second).1,
    (dropWhile_append_cons h second).2]

theorem hexval_comma : hexval (byte ',') = none := by decide

theorem hexval_colon : hexval (byte ':') = none := by decide

theorem cut_hexnum {sep : Byte} (h : hexval sep = none) (v : U64) (rest : Bytes) :
    cut sep (hexnum v ++ sep :: rest) = some (hexnum v, rest) :=
  cut_append (notMem_hexnum h v) rest

/-! ## Requests are read back -/

theorem bpKindOf_toGdbType (kind : Backend.BpKind) :
    ∃ type : ℕ, toGdbType kind = type ∧ bpKindOf type = some kind := by
  cases kind
  case softwareExec => exact ⟨0, rfl, rfl⟩
  case hardwareExec => exact ⟨1, rfl, rfl⟩
  case writeWatch => exact ⟨2, rfl, rfl⟩
  case readWatch => exact ⟨3, rfl, rfl⟩
  case accessWatch => exact ⟨4, rfl, rfl⟩

theorem read_type (kind : Backend.BpKind) :
    ∃ type : ℕ, toGdbType kind = type ∧ bpKindOf type = some kind ∧
      Numeral.read hexval 16 (ascii (toString (type : ℤ))) = some type := by
  obtain ⟨type, htype, hkind⟩ := bpKindOf_toGdbType kind
  refine ⟨type, htype, hkind, ?_⟩
  have hdigit : type < 10 := by
    by_contra hlarge
    obtain ⟨k, rfl⟩ : ∃ k, type = k + 5 := ⟨type - 5, by omega⟩
    cases hkind
  rw [read_size (by decide), Numeral.reread_of_lt hdigit]

theorem readBreakpoint_eq {radix : ℕ} (hradix : 10 ≤ radix) (kind : Backend.BpKind) (addr : U64)
    (size : ℕ) :
    readBreakpoint radix (ascii (toString (toGdbType kind)) ++ byte ',' ::
      (hexnum addr ++ byte ',' :: ascii (toString (size : ℤ)))) =
        some (kind, addr, Numeral.reread 10 radix size) := by
  obtain ⟨type, htype, hkind, hread⟩ := read_type kind
  rw [htype, readBreakpoint, cut_append (notMem_toString hexval_comma type)]
  simp only [Option.bind_eq_bind, Option.bind_some, cut_hexnum hexval_comma, hread, hkind,
    readWord_hexnum, read_size hradix]

theorem readRange_eq (addr len : U64) :
    readRange (hexnum addr ++ byte ',' :: hexnum len) = some (.readMemory addr len) := by
  rw [readRange, cut_hexnum hexval_comma]
  simp only [Option.bind_eq_bind, Option.bind_some, readWord_hexnum]

theorem readData_eq (addr : U64) (data : Bytes) (fits : data.length < 2 ^ 64) :
    readData (hexnum addr ++ byte ',' ::
      (hexnum (BitVec.ofNat 64 data.length) ++ byte ':' :: hexEncode data)) =
        some (.writeMemory addr data fits) := by
  have hlen : data.length = (BitVec.ofNat 64 data.length).toNat := by
    rw [BitVec.toNat_ofNat, Nat.mod_eq_of_lt fits]
  rw [readData, cut_hexnum hexval_comma]
  simp only [Option.bind_eq_bind, Option.bind_some, cut_hexnum hexval_colon, readWord_hexnum,
    hexDecode_hexEncode]
  rw [dif_pos hlen]

/-- **What is read of a request**: the request itself, with its size as it looks in the radix in
which it is read. -/
theorem readRequest_payload {radix : ℕ} (hradix : 10 ≤ radix) (r : Request) :
    readRequest radix r.payload = some (r.mapSize (Numeral.reread 10 radix)) := by
  cases r with
  | readMemory addr len =>
      have hpayload : (Request.readMemory addr len).payload =
          byte 'm' :: (hexnum addr ++ byte ',' :: hexnum len) := by
        simp [Request.payload, reqReadMemory, ascii]
      rw [hpayload, readRequest, if_pos rfl, readRange_eq]
      rfl
  | writeMemory addr data fits =>
      have hpayload : (Request.writeMemory addr data fits).payload =
          byte 'M' :: (hexnum addr ++ byte ',' ::
            (hexnum (BitVec.ofNat 64 data.length) ++ byte ':' :: hexEncode data)) := by
        simp [Request.payload, reqWriteMemory, ascii]
      rw [hpayload, readRequest, if_neg (by decide), if_pos rfl, readData_eq addr data fits]
      rfl
  | setBreakpoint kind addr size =>
      have hpayload : (Request.setBreakpoint kind addr size).payload =
          byte 'Z' :: (ascii (toString (toGdbType kind)) ++ byte ',' ::
            (hexnum addr ++ byte ',' :: ascii (toString (size : ℤ)))) := by
        simp [Request.payload, reqSetBreakpoint, ascii]
      rw [hpayload, readRequest, if_neg (by decide), if_neg (by decide), if_pos rfl,
        readBreakpoint_eq hradix]
      rfl
  | removeBreakpoint kind addr size =>
      have hpayload : (Request.removeBreakpoint kind addr size).payload =
          byte 'z' :: (ascii (toString (toGdbType kind)) ++ byte ',' ::
            (hexnum addr ++ byte ',' :: ascii (toString (size : ℤ)))) := by
        simp [Request.payload, reqRemoveBreakpoint, ascii]
      rw [hpayload, readRequest, if_neg (by decide), if_neg (by decide), if_neg (by decide),
        if_pos rfl, readBreakpoint_eq hradix]
      rfl
  | readRegisters | cont | step | haltReason | qSupported => rfl

/-- A reader who reads sizes in decimal recovers every request. -/
theorem readRequest_payload_ten (r : Request) : readRequest 10 r.payload = some r := by
  rw [readRequest_payload le_rfl, (r.mapSize_eq_self_iff _).mpr fun size _ =>
    Numeral.reread_self 10 size]

theorem payload_injective : Function.Injective Request.payload := by
  intro r r' h
  have hread := readRequest_payload_ten r
  rw [h, readRequest_payload_ten] at hread
  exact (Option.some.inj hread).symm

/-- The reader that the format asks for recovers what has no size, or one of one digit. -/
theorem readRequest_payload_iff (r : Request) :
    readRequest 16 r.payload = some r ↔ ∀ size, r.size? = some size → size < 10 := by
  rw [readRequest_payload (by decide), Option.some.injEq, Request.mapSize_eq_self_iff]
  refine forall₂_congr fun size _ => ?_
  exact Numeral.reread_eq_iff (by decide) (by decide)

theorem readRequest_unsized {r : Request} (h : r.size? = none) :
    readRequest 16 r.payload = some r :=
  (readRequest_payload_iff r).mpr (by simp [h])

theorem readRequest_sized {r : Request} {size : ℕ} (h : r.size? = some size) (hsize : size < 10) :
    readRequest 16 r.payload = some r :=
  (readRequest_payload_iff r).mpr (by simpa [h] using hsize)

/-! ## Requests on the wire -/

theorem notMem_hexEncode {c : Byte} (hc : hexval c = none) (data : Bytes) :
    c ∉ hexEncode data := by
  intro hmem
  obtain ⟨b, -, hb⟩ := List.mem_flatMap.mp hmem
  have hlt := b.isLt
  rcases List.mem_pair.mp hb with rfl | rfl
  · rw [hexval_hexDigit (by omega)] at hc
    cases hc
  · rw [hexval_hexDigit (by omega)] at hc
    cases hc

/-- Besides digits, only the names of the operations and the separators are sent. -/
theorem notMem_payload {c : Byte} (hc : hexval c = none)
    (hfixed : c ∉ ascii "mMZzgcs?qSupported,:") (r : Request) : c ∉ r.payload := by
  have hname : ∀ s : Bytes, s ⊆ ascii "mMZzgcs?qSupported,:" → c ∉ s := fun s hs hmem =>
    hfixed (hs hmem)
  have htype : ∀ kind, c ∉ ascii (toString (toGdbType kind)) := by
    intro kind
    obtain ⟨type, htype, -⟩ := bpKindOf_toGdbType kind
    rw [htype]
    exact notMem_toString hc type
  cases r with
  | readMemory addr len =>
      simp only [Request.payload, reqReadMemory, List.mem_append, notMem_hexnum hc, or_false]
      exact not_or.mpr ⟨hname _ (by decide), hname _ (by decide)⟩
  | writeMemory addr data fits =>
      simp only [Request.payload, reqWriteMemory, List.mem_append, notMem_hexnum hc,
        notMem_hexEncode hc, or_false]
      exact not_or.mpr ⟨not_or.mpr ⟨hname _ (by decide), hname _ (by decide)⟩, hname _ (by decide)⟩
  | setBreakpoint kind addr size =>
      simp only [Request.payload, reqSetBreakpoint, List.mem_append, notMem_hexnum hc, htype,
        notMem_toString hc, or_false]
      exact not_or.mpr ⟨not_or.mpr ⟨hname _ (by decide), hname _ (by decide)⟩, hname _ (by decide)⟩
  | removeBreakpoint kind addr size =>
      simp only [Request.payload, reqRemoveBreakpoint, List.mem_append, notMem_hexnum hc, htype,
        notMem_toString hc, or_false]
      exact not_or.mpr ⟨not_or.mpr ⟨hname _ (by decide), hname _ (by decide)⟩, hname _ (by decide)⟩
  | readRegisters | cont | step | haltReason | qSupported => exact hname _ (by decide)

/-- The calls of the client and of the backend send these requests. -/
theorem calls_send (server : Host.Server) (c : Transport.GdbClient) :
    (∀ addr len, (c.readMemory server addr len).2 =
      (c.transact server (Request.readMemory addr len).payload).2) ∧
    (∀ addr data fits, (c.writeMemory server addr data).2 =
      (c.transact server (Request.writeMemory addr data fits).payload).2) ∧
    (∀ kind addr (size : ℕ), (setBreakpoint server kind addr size c).2 =
      (c.transact server (Request.setBreakpoint kind addr size).payload).2) ∧
    ∀ kind addr (size : ℕ), (removeBreakpoint server kind addr size c).2 =
      (c.transact server (Request.removeBreakpoint kind addr size).payload).2 := by
  refine ⟨fun addr len => ?_, fun _ _ _ => rfl, fun _ _ _ => rfl, fun _ _ _ => rfl⟩
  rw [Transport.GdbClient.readMemory, Request.payload]
  split
  · next h => rw [h]
  · next h =>
      rw [h]
      split <;> rfl

/-- **Which requests are recovered** by a reader who takes every number as hexadecimal: those
without a breakpoint size, and those with a size of one digit.  In any case the text that is sent
determines the request, and it can be framed. -/
theorem requests_recovered_iff (r : Request) :
    (readRequest 16 r.payload = some r ↔ ∀ size, r.size? = some size → size < 10) ∧
    (∀ r' : Request, r.payload = r'.payload → r = r') ∧
    byte '$' ∉ r.payload ∧ byte '#' ∉ r.payload ∧
    ∀ rest, nextPayload (frame r.payload ++ rest) = (some r.payload, rest) := by
  have hhash : byte '#' ∉ r.payload := notMem_payload (by decide) (by decide) r
  exact ⟨readRequest_payload_iff r, fun r' h => payload_injective h,
    notMem_payload (by decide) (by decide) r, hhash,
    fun rest => nextPayload_frame acks_nil hhash rest⟩

/-- **Not every request is recovered.**  A watchpoint of 16 bytes is read as one of 22. -/
theorem not_requests_recovered :
    readRequest 16 (Request.setBreakpoint .writeWatch 0x401000 16).payload =
        some (.setBreakpoint .writeWatch 0x401000 22) ∧
      ¬ ∀ r : Request, readRequest 16 r.payload = some r := by
  have hread : readRequest 16 (Request.setBreakpoint .writeWatch 0x401000 16).payload =
      some (.setBreakpoint .writeWatch 0x401000 22) := by
    rw [readRequest_payload (by decide), Request.mapSize,
      Numeral.reread_of_le (by decide) (by decide), Numeral.reread_of_lt (by decide)]
  refine ⟨hread, fun h => ?_⟩
  have hsame := h (.setBreakpoint .writeWatch 0x401000 16)
  rw [hread] at hsame
  exact absurd hsame (by decide)

end Irida.GdbBackend
