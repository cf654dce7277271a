import Irida.Proto.Hex

/-!
# Packets

`packets.cpp`: the payloads of the requests that are sent, and what is read off
the payloads of the replies.
-/

namespace Irida.Proto

/-! ## Requests -/

/-- `hexnum`. -/
def hexnum (v : U64) : Bytes :=
  ascii (String.ofList (Nat.toDigits 16 v.toNat))

/-- `req_read_registers`. -/
def reqReadRegisters : Bytes := ascii "g"

/-- `req_read_memory`. -/
def reqReadMemory (addr len : U64) : Bytes :=
  ascii "m" ++ hexnum addr ++ ascii "," ++ hexnum len

/-- `req_write_memory`. -/
def reqWriteMemory (addr : U64) (data : Bytes) : Bytes :=
  ascii "M" ++ hexnum addr ++ ascii "," ++ hexnum (BitVec.ofNat 64 data.length) ++ ascii ":" ++
    hexEncode data

/-- `req_set_breakpoint`. -/
def reqSetBreakpoint (type : ℤ) (addr : U64) (kind : ℤ) : Bytes :=
  ascii "Z" ++ ascii (toString type) ++ ascii "," ++ hexnum addr ++ ascii "," ++
    ascii (toString kind)

/-- `req_remove_breakpoint`. -/
def reqRemoveBreakpoint (type : ℤ) (addr : U64) (kind : ℤ) : Bytes :=
  ascii "z" ++ ascii (toString type) ++ ascii "," ++ hexnum addr ++ ascii "," ++
    ascii (toString kind)

/-- `req_continue`. -/
def reqContinue : Bytes := ascii "c"

/-- `req_step`. -/
def reqStep : Bytes := ascii "s"

/-- `req_halt_reason`. -/
def reqHaltReason : Bytes := ascii "?"

/-- `req_qsupported`. -/
def reqQsupported : Bytes := ascii "qSupported"

/-! ## Replies -/

/-- `parse_hex_byte`; `none` stands for `-1`. -/
def parseHexByte : Bytes → Option ℕ
  | hi :: lo :: _ =>
    match hexval hi, hexval lo with
    | some hi, some lo => some (16 * hi + lo)
    | _, _ => none
  | _ => none

/-- `reply_is_ok`. -/
def replyIsOk (payload : Bytes) : Bool :=
  payload = ascii "OK"

/-- `reply_error_code`. -/
def replyErrorCode (payload : Bytes) : Option ℕ :=
  if payload.length ≥ 3 ∧ payload.head? = some (byte 'E') then parseHexByte payload.tail
  else none

/-- `StopReply::Kind`. -/
inductive StopReply.Kind
  | signal
  | exited
  | terminated
  | output
  | unknown
  deriving DecidableEq, Repr

/-- `StopReply`. -/
structure StopReply where
  kind : StopReply.Kind := .unknown
  code : ℤ := 0
  info : List (Bytes × Bytes) := []
  output : Bytes := []
  deriving DecidableEq, Repr

/-- A `key:val` field; one without a colon is skipped. -/
def parseInfoField (field : Bytes) : Option (Bytes × Bytes) :=
  match field.span (· ≠ byte ':') with
  | (key, _ :: val) => some (key, val)
  | (_, []) => none

/-- The fields of a `T` reply, separated by semicolons. -/
def parseInfo (rest : Bytes) : List (Bytes × Bytes) :=
  (rest.splitOn (byte ';')).filterMap parseInfoField

/-- `parse_stop_reply`. -/
def parseStopReply : Bytes → StopReply
  | [] => {}
  | t :: rest =>
    if t = byte 'O' then { kind := .output, output := rest }
    else
      let code : ℤ := (parseHexByte rest).getD 0
      if t = byte 'S' then { kind := .signal, code := code }
      else if t = byte 'T' then { kind := .signal, code := code, info := parseInfo (rest.drop 2) }
      else if t = byte 'W' then { kind := .exited, code := code }
      else if t = byte 'X' then { kind := .terminated, code := code }
      else { kind := .unknown, code := code }

/-- A payload that reports a halt: its first character is `S`, `T`, `W` or `X`. -/
def IsStopPayload (payload : Bytes) : Prop :=
  payload.head? = some (byte 'S') ∨ payload.head? = some (byte 'T') ∨
    payload.head? = some (byte 'W') ∨ payload.head? = some (byte 'X')

instance : DecidablePred IsStopPayload := fun _ => by unfold IsStopPayload; infer_instance

end Irida.Proto
