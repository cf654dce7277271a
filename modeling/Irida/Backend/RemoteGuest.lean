import Irida.Backend.Requests
import Irida.Proto.StopReply
import Irida.Target.Lifting
import Irida.Transport.MockGdbServer

/-!
# A guest behind the gdb-remote stack

What the layers from the target down to the socket are for: a target over gdb-remote should be
the same thing as a target that works on the guest itself.  `Guest` is what is debugged, and
`Guest.ops` is a backend that needs no protocol.  `Guest.Replies` is what the format lets a stub
reply, and `Conforms` says that a server reads the requests of the format and replies so.

The format leaves a stub some freedom: the case of the digits, the fields of a stop reply, what it
says of itself, and the words in which it refuses.  None of it is fixed here.  The size of a
breakpoint is read as the format has it, in hexadecimal, so that a request is only understood if the
decimal digits that the client sends mean the same (`readRequest_payload_iff`).

Then the backend over the client simulates the one without a protocol (`linked_simulates`), over
any network, for as long as every request gets its reply: the bytes may arrive in any pieces, in
both directions, and a request may be lost or time out at any point, from where on nothing is
claimed.  By `session_agrees` this carries over to targets (`debug_agrees`).
-/

namespace Irida.GdbBackend

open Host Proto Transport Simulation

/-! ## The guest -/

/-- Why the guest has stopped. -/
inductive Halt
  | signal (code : Byte) (atBreakpoint : Bool)
  | exited (code : Byte)
  | terminated (code : Byte)
  deriving DecidableEq, Repr

/-- The words in which a change is refused. -/
structure Refusal where
  text : Bytes
  ne_ok : text ≠ ascii "OK"

/-- What is debugged.  A read that is refused has an error number. -/
structure Guest (γ : Type*) where
  registers : γ → Bytes
  read : U64 → U64 → γ → Except Byte Bytes
  write : U64 → Bytes → γ → Except Refusal γ
  setBreakpoint : Backend.BpKind → U64 → ℕ → γ → Except Refusal γ
  removeBreakpoint : Backend.BpKind → U64 → ℕ → γ → Except Refusal γ
  cont : γ → Halt × γ
  step : γ → Halt × γ
  halt : γ → Halt

/-- The stop reply for a halt. -/
def Halt.reply : Halt → Backend.StopReply
  | .signal code atBreakpoint =>
    { kind := if atBreakpoint then .breakpoint else .signal, signal := code.toNat }
  | .exited code => { kind := .exited, signal := code.toNat }
  | .terminated code => { kind := .error, signal := code.toNat }

namespace Guest

variable {γ : Type*} (m : Guest γ)

/-- The guest as a backend, without a protocol. -/
def ops : Backend γ where
  cont g := (.ok (m.cont g).1.reply, (m.cont g).2)
  step g := (.ok (m.step g).1.reply, (m.step g).2)
  readRegisters g := (.ok (m.registers g), g)
  readMemory addr len g :=
    match m.read addr len g with
    | .ok bytes => (.ok bytes, g)
    | .error e => (.error ("read_memory: target error E" ++ toString e.toNat), g)

end Guest

/-! ## The replies of a stub -/

/-- Whether a stop is at a breakpoint, by the fields of its reply. -/
def atBreakpoint (fields : List (Bytes × Bytes)) : Bool :=
  fields.any fun (key, _) => key = ascii "swbreak" ∨ key = ascii "hwbreak"

/-- The replies that report a halt. -/
inductive Halt.Reported : Halt → Bytes → Prop
  | signal {code : Byte} {text : Bytes} :
    Writes text [code] → Reported (.signal code false) (byte 'S' :: text)
  | fields {code : Byte} {text final : Bytes} {fields : List (Bytes × Bytes)} :
    Writes text [code] → (∀ f ∈ fields, Separable f) → final = [] ∨ final = [byte ';'] →
    Reported (.signal code (atBreakpoint fields)) (byte 'T' :: (text ++ (joinInfo fields ++ final)))
  -- the process that has ended may be named behind the code
  | exited {code : Byte} {text process : Bytes} :
    Writes text [code] → process = [] ∨ process.head? = some (byte ';') →
    Reported (.exited code) (byte 'W' :: (text ++ process))
  | terminated {code : Byte} {text process : Bytes} :
    Writes text [code] → process = [] ∨ process.head? = some (byte ';') →
    Reported (.terminated code) (byte 'X' :: (text ++ process))

section

variable {γ : Type*}

/-- The replies to a request that changes the guest. -/
def Acknowledges : Except Refusal γ → Bytes → Prop
  | .ok _, p => p = ascii "OK"
  | .error refusal, p => p = refusal.text

/-- The guest after a change that may be refused. -/
def changed (g : γ) : Except Refusal γ → γ
  | .ok g => g
  | .error _ => g

namespace Guest

variable (m : Guest γ)

/-- The replies that a stub may give to a request.  Memory may be written in either case, but not
so that it looks like an error. -/
def Replies : Request → γ → Bytes → Prop
  | .readRegisters, g, p => Writes p (m.registers g)
  | .readMemory addr len, g, p =>
    match m.read addr len g with
    | .ok bytes => Writes p bytes ∧ p.head? ≠ some (byte 'E')
    | .error e => ∃ text, p = byte 'E' :: text ∧ Writes text [e]
  | .writeMemory addr data _, g, p => Acknowledges (m.write addr data g) p
  | .setBreakpoint kind addr size, g, p => Acknowledges (m.setBreakpoint kind addr size g) p
  | .removeBreakpoint kind addr size, g, p => Acknowledges (m.removeBreakpoint kind addr size g) p
  | .cont, g, p => (m.cont g).1.Reported p
  | .step, g, p => (m.step g).1.Reported p
  | .haltReason, g, p => (m.halt g).Reported p
  | .qSupported, _, _ => True

/-- The guest after a request. -/
def after : Request → γ → γ
  | .writeMemory addr data _, g => changed g (m.write addr data g)
  | .setBreakpoint kind addr size, g => changed g (m.setBreakpoint kind addr size g)
  | .removeBreakpoint kind addr size, g => changed g (m.removeBreakpoint kind addr size g)
  | .cont, g => (m.cont g).2
  | .step, g => (m.step g).2
  | .readRegisters, g | .readMemory _ _, g | .haltReason, g | .qSupported, g => g

end Guest

/-- The handler of a server gives the guest each request that it is sent, as the format has it, and
replies to it; and it answers whatever else it receives in a way that can be framed. -/
structure Conforms (m : Guest γ) (handle : Handler γ) : Prop where
  framable : ∀ payload g, Framable (handle payload g).1
  answers : ∀ payload r g, readRequest 16 payload = some r →
    m.Replies r g (handle payload g).1 ∧ (handle payload g).2 = m.after r g

end

/-! ## The replies are understood -/

theorem parseHexByte_of_writes {text : Bytes} {code : Byte} (h : Writes text [code])
    (rest : Bytes) : parseHexByte (text ++ rest) = some code.toNat := by
  obtain ⟨hi, lo, rfl, hhi, hlo⟩ := digits_of_writes h
  simp only [List.cons_append, List.nil_append, parseHexByte, hhi, hlo, Nat.div_add_mod]

/-- **Every halt is understood**: its code and its kind come back from the wire. -/
theorem translateStop_reported {halt : Halt} {p : Bytes} (h : halt.Reported p) :
    translateStop (parseStopReply p) = halt.reply := by
  cases h with
  | @signal code text hcode =>
      have hparse := parseHexByte_of_writes hcode []
      rw [List.append_nil] at hparse
      rw [parseStopReply, if_neg (by decide), if_pos rfl, hparse]
      rfl
  | fields hcode hfields hfinal =>
      obtain ⟨hi, lo, rfl, hhi, hlo⟩ := digits_of_writes hcode
      rw [List.cons_append, List.cons_append, List.nil_append,
        parseStopReply_joinInfo hhi hlo hfields hfinal]
      rfl
  | exited hcode _ =>
      rw [parseStopReply, if_neg (by decide), if_neg (by decide), if_neg (by decide), if_pos rfl,
        parseHexByte_of_writes hcode]
      rfl
  | terminated hcode _ =>
      rw [parseStopReply, if_neg (by decide), if_neg (by decide), if_neg (by decide),
        if_neg (by decide), if_pos rfl, parseHexByte_of_writes hcode]
      rfl

/-- An error is recognized, with its number. -/
theorem replyErrorCode_of_writes {text : Bytes} {e : Byte} (h : Writes text [e]) :
    replyErrorCode (byte 'E' :: text) = some e.toNat := by
  have hparse := parseHexByte_of_writes h []
  rw [List.append_nil] at hparse
  obtain ⟨hi, lo, rfl, -, -⟩ := digits_of_writes h
  rw [replyErrorCode, if_pos ⟨by simp, rfl⟩]
  exact hparse

theorem replyErrorCode_of_head {p : Bytes} (h : p.head? ≠ some (byte 'E')) :
    replyErrorCode p = none :=
  if_neg fun herror => h herror.2

/-- What the client makes of the reply to a read. -/
theorem readMemory_of_replies {γ : Type*} {m : Guest γ} {addr len : U64} {g : γ} {p : Bytes}
    (h : m.Replies (.readMemory addr len) g p) :
    (match replyErrorCode p with
      | some e => .error ("read_memory: target error E" ++ toString e)
      | none => hexDecode p) = (m.ops.readMemory addr len g).1 := by
  dsimp only [Guest.Replies, Guest.ops] at h ⊢
  cases hread : m.read addr len g with
  | ok bytes =>
      rw [hread] at h
      obtain ⟨hwrites, hhead⟩ := h
      rw [replyErrorCode_of_head hhead]
      exact hexDecode_of_writes hwrites
  | error e =>
      rw [hread] at h
      obtain ⟨text, rfl, hwrites⟩ := h
      rw [replyErrorCode_of_writes hwrites]

/-! ## The client over a network -/

/-- The client, and whether one of its requests did not get its reply. -/
structure Linked where
  client : GdbClient
  lost : Bool := false

section

variable (server : Server)

/-- Whether a request gets no reply. -/
def fails (payload : Bytes) (c : GdbClient) : Bool :=
  match (c.transact server payload).1 with
  | .ok _ => false
  | .error _ => true

/-- An operation of the client that sends one request. -/
def watched {ρ : Type*} (request : Request) (call : GdbClient → Result ρ × GdbClient)
    (l : Linked) : Result ρ × Linked :=
  ((call l.client).1,
    { client := (call l.client).2, lost := l.lost || fails server request.payload l.client })

/-- `GdbBackend` as a backend, with its losses. -/
def linkedOps : Backend Linked where
  cont := watched server .cont (ops server).cont
  step := watched server .step (ops server).step
  readRegisters := watched server .readRegisters (ops server).readRegisters
  readMemory addr len := watched server (.readMemory addr len) ((ops server).readMemory addr len)

end

section

variable {γ : Type*} {m : Guest γ} {handle : Handler γ} {cutting : Cutting}
  {start : MockGdbServer γ}

/-- Nothing is lost or under way, and the server has the guest in this state. -/
structure Paired (handle : Handler γ) (cutting : Cutting) (start : MockGdbServer γ) (l : Linked)
    (g : γ) : Prop where
  kept : l.lost = false
  quiet : Encodes l.client.stream []
  idle : MockGdbServer.Idle
    (MockGdbServer.after handle cutting start l.client.sock.requests.reverse) g

/-- The link between the client and the guest itself. -/
def remote (handle : Handler γ) (cutting : Cutting) (start : MockGdbServer γ) : Link Linked γ where
  lost l := l.lost = true
  rel := Paired handle cutting start
  kept h hgone := by
    rw [h.kept] at hgone
    cases hgone

/-- **One transaction** gets a reply of the stub, or none. -/
theorem transact_paired (h : Conforms m handle) {l : Linked} {g : γ}
    (hrel : Paired handle cutting start l g) {r : Request}
    (hread : readRequest 16 r.payload = some r) :
    (∃ e c, l.client.transact (MockGdbServer.server handle cutting start) r.payload =
        (.error e, c)) ∨
      ∃ p c, l.client.transact (MockGdbServer.server handle cutting start) r.payload =
          (.ok p, c) ∧ m.Replies r g p ∧
        Paired handle cutting start { client := c } (m.after r g) := by
  have hpayload : Framable r.payload := notMem_payload (by decide) (by decide) r
  obtain ⟨hserved, hidle⟩ := MockGdbServer.server_append hrel.idle hpayload
  obtain ⟨hreply, hafter⟩ := h.answers r.payload r g hread
  have hserver : (MockGdbServer.server handle cutting start).WellFormed :=
    MockGdbServer.server_wellFormed h.framable
  rcases GdbClient.transact_spec hserver r.payload hrel.quiet with
    ⟨e, c, hcall, -⟩ | ⟨e, c, hcall, -⟩ | ⟨p, payloads, c, hcall, heq, hquiet, hrequests⟩
  · exact Or.inl ⟨e, c, hcall⟩
  · exact Or.inl ⟨e, c, hcall⟩
  · rw [GdbClient.replies, hserved] at heq
    obtain ⟨rfl, rfl⟩ : (handle r.payload g).1 = p ∧ [] = payloads := by simpa using heq
    rw [hafter] at hidle
    refine Or.inr ⟨_, c, hcall, hreply, rfl, hquiet, ?_⟩
    rwa [hrequests]

/-- **One operation**: if it makes the same of every reply of a stub as the guest itself returns, it
simulates what the guest does. -/
theorem watched_simulates (h : Conforms m handle) {ρ : Type} {r : Request}
    (hread : readRequest 16 r.payload = some r) {call : GdbClient → Result ρ × GdbClient}
    {direct : γ → Result ρ × γ}
    (hcall : ∀ {c c' : GdbClient} {g : γ} {p : Bytes},
      c.transact (MockGdbServer.server handle cutting start) r.payload = (.ok p, c') →
      m.Replies r g p → call c = ((direct g).1, c'))
    (hguest : ∀ g, (direct g).2 = m.after r g) :
    (remote handle cutting start).Simulates
      (watched (MockGdbServer.server handle cutting start) r call) direct where
  lost l hgone := by
    show (l.lost || _) = true
    rw [show l.lost = true from hgone, Bool.true_or]
  agrees l g hrel := by
    -- the request is lost, or one of the replies of the stub is returned
    rcases transact_paired h hrel hread with ⟨e, c, htransact⟩ | ⟨p, c, htransact, hreply, hnext⟩
    · refine Or.inl ?_
      show (l.lost || fails _ _ _) = true
      rw [fails, htransact, Bool.or_true]
    · have hcalled := hcall htransact hreply
      refine Or.inr ⟨?_, ?_, ?_, ?_⟩
      · rw [watched, hcalled]
      · show (l.lost || fails _ _ _) = false
        rw [fails, htransact, hrel.kept, Bool.or_false]
      · rw [watched, hcalled]
        exact hnext.quiet
      · rw [watched, hcalled, hguest]
        exact hnext.idle

/-- **The backend over the client simulates the guest.** -/
theorem linked_simulates (h : Conforms m handle) :
    Target.BackendSimulates (remote handle cutting start)
      (linkedOps (MockGdbServer.server handle cutting start)) m.ops where
  cont := by
    refine watched_simulates h (readRequest_unsized rfl)
      (fun htransact hreply => ?_) fun _ => rfl
    rw [Request.payload] at htransact
    dsimp only [ops, translated, GdbClient.cont]
    rw [htransact]
    exact Prod.ext (congrArg Except.ok (translateStop_reported hreply)) rfl
  step := by
    refine watched_simulates h (readRequest_unsized rfl)
      (fun htransact hreply => ?_) fun _ => rfl
    rw [Request.payload] at htransact
    dsimp only [ops, translated, GdbClient.step]
    rw [htransact]
    exact Prod.ext (congrArg Except.ok (translateStop_reported hreply)) rfl
  readRegisters := by
    refine watched_simulates h (readRequest_unsized rfl)
      (fun htransact hreply => ?_) fun _ => rfl
    rw [Request.payload] at htransact
    dsimp only [ops, GdbClient.readRegisters]
    rw [htransact]
    exact Prod.ext (hexDecode_of_writes hreply) rfl
  readMemory addr len := by
    refine watched_simulates h (readRequest_unsized rfl)
      (fun {c c' g p} htransact hreply => ?_) fun g => ?_
    · rw [Request.payload] at htransact
      dsimp only [ops, GdbClient.readMemory]
      rw [htransact, ← readMemory_of_replies hreply]
      dsimp only
      cases replyErrorCode p <;> rfl
    · dsimp only [Guest.after, Guest.ops]
      cases m.read addr len g <;> rfl
  -- a read that is lost is an error of the backend as well
  fails {addr len l l' g r} hrel hcall hgone := by
    rcases transact_paired h hrel (r := .readMemory addr len)
      (readRequest_unsized rfl) with ⟨e, c, htransact⟩ | ⟨p, c, htransact, -⟩
    · obtain ⟨rfl, -⟩ := Prod.mk.inj hcall
      refine ⟨e, ?_⟩
      rw [Request.payload] at htransact
      dsimp only [ops, GdbClient.readMemory]
      rw [htransact]
    · obtain ⟨-, rfl⟩ := Prod.mk.inj hcall
      have hkept : (l.lost || fails (MockGdbServer.server handle cutting start)
          (Request.readMemory addr len).payload l.client) = true := hgone
      rw [fails, htransact, hrel.kept] at hkept
      cases hkept

end

/-! ## The server of the tests -/

/-- What the server of the tests pretends to serve. -/
def cannedGuest : Guest Unit where
  registers _ := [1, 2, 3, 4, 5, 6, 7, 8]
  read _ _ _ := .ok [0xDE, 0xAD, 0xBE, 0xEF]
  write _ _ _ := .ok ()
  setBreakpoint _ _ _ _ := .ok ()
  removeBreakpoint _ _ _ _ := .ok ()
  cont _ := (.signal 5 false, ())
  step _ := (.signal 5 false, ())
  halt _ := .signal 5 false

/-- The texts of an operation, by their first character or as a whole. -/
def TextOf (p : Bytes) : Request → Prop
  | .readMemory _ _ => p.head? = some (byte 'm')
  | .writeMemory _ _ _ => p.head? = some (byte 'M')
  | .setBreakpoint _ _ _ => p.head? = some (byte 'Z')
  | .removeBreakpoint _ _ _ => p.head? = some (byte 'z')
  | .readRegisters => p = ascii "g"
  | .cont => p = ascii "c"
  | .step => p = ascii "s"
  | .haltReason => p = ascii "?"
  | .qSupported => p = ascii "qSupported"

theorem textOf_of_readRequest {radix : ℕ} {p : Bytes} {r : Request}
    (h : readRequest radix p = some r) : TextOf p r := by
  cases p with
  | nil => cases h
  | cons c body =>
      simp only [readRequest] at h
      -- the first character tells what is read of the rest
      split_ifs at h with hm hM hZ hz
      case pos =>
        simp only [readRange, Option.bind_eq_bind, Option.bind_eq_some_iff] at h
        obtain ⟨-, -, addr, -, len, -, hr⟩ := h
        obtain rfl := Option.some.inj hr
        exact congrArg some hm
      case pos =>
        simp only [readData, Option.bind_eq_bind, Option.bind_eq_some_iff] at h
        obtain ⟨_, -, _, -, addr, -, len, -, hdata⟩ := h
        split at hdata
        · cases hdata
        · split at hdata
          · obtain rfl := Option.some.inj hdata
            exact congrArg some hM
          · cases hdata
      case pos =>
        obtain ⟨-, -, rfl⟩ := Option.map_eq_some_iff.mp h
        exact congrArg some hZ
      case pos =>
        obtain ⟨-, -, rfl⟩ := Option.map_eq_some_iff.mp h
        exact congrArg some hz
      all_goals
        obtain rfl := Option.some.inj h
        assumption

/-- The server of the tests answers by the first character. -/
theorem canned_replies {p : Bytes} {r : Request} (h : readRequest 16 p = some r) (g : Unit) :
    cannedGuest.Replies r g (MockGdbServer.canned p g).1 := by
  have htext := textOf_of_readRequest h
  have hcanned : ∀ c body, c ∈ ascii "mMZz" → MockGdbServer.canned (c :: body) g =
      (if c = byte 'm' then ascii "deadbeef" else ascii "OK", ()) := by
    intro c body hc
    have hc : c = byte 'm' ∨ c = byte 'M' ∨ c = byte 'Z' ∨ c = byte 'z' := by simpa [ascii] using hc
    rcases hc with rfl | rfl | rfl | rfl <;> simp [MockGdbServer.canned, ascii, byte]
  cases r with
  | readMemory | writeMemory | setBreakpoint | removeBreakpoint =>
      cases p with
      | nil => cases htext
      | cons c body =>
          obtain rfl := Option.some.inj htext
          rw [hcanned _ _ (by decide)]
          first | rfl | exact ⟨by decide, by decide⟩
  | readRegisters =>
      rw [show p = ascii "g" from htext]
      exact show Writes (ascii "0102030405060708") [1, 2, 3, 4, 5, 6, 7, 8] by decide
  | cont | step | haltReason =>
      rw [show p = _ from htext]
      exact .signal (show Writes (ascii "05") [5] by decide)
  | qSupported => trivial

theorem canned_conforms : Conforms cannedGuest MockGdbServer.canned where
  framable payload _ := by
    unfold MockGdbServer.canned Framable
    dsimp only
    repeat' split
    all_goals decide
  answers payload r g h := ⟨canned_replies h g, by cases r <;> rfl⟩

/-! ## A debugging session -/

section

variable (server : Server) (fuel : ℕ) (calls : List Target.Call)

/-- A session with the target over a backend. -/
def sessionOver {β : Type*} (ops : Backend β) (b : β) :
    Result (List Target.Outcome × Target β) :=
  match Target.attach ops b with
  | .error e => .error e
  | .ok t => .ok (Target.session ops fuel calls t)

/-- `Target::attach` with a host and a port, where `sock` is the connection that is made, and a
session with the target. -/
def debug (sock : TcpClient) : Result (List Target.Outcome × Target GdbClient) :=
  match attach server (.ok sock) {} with
  | (.error e, _) => .error e
  | (.ok _, c) => sessionOver fuel calls (ops server) c

/-- `attach`, with its losses: the handshake, and the request for the halt reason. -/
def linkedAttach (sock : TcpClient) : Result Unit × Linked :=
  let c : GdbClient := { sock := sock }
  watched server .haltReason
    (fun c =>
      match c.haltReason server with
      | (.error e, c) => (.error e, c)
      | (.ok _, c) => (.ok (), c))
    { client := (c.transact server Request.qSupported.payload).2
      lost := fails server Request.qSupported.payload c }

/-- The same session, with its losses. -/
def linkedDebug (sock : TcpClient) : Result (List Target.Outcome × Target Linked) :=
  match linkedAttach server sock with
  | (.error e, _) => .error e
  | (.ok _, l) => sessionOver fuel calls (linkedOps server) l

/-- Whether a request of the session does not get its reply. -/
def disturbed (sock : TcpClient) : Bool :=
  match linkedDebug server fuel calls sock with
  | .error _ => true
  | .ok (_, t) => t.backend.lost

/-- Watching the losses changes nothing. -/
def unwatched : Link Linked GdbClient where
  lost _ := False
  rel l c := l.client = c
  kept _ := id

theorem watched_unwatched {ρ : Type} (r : Request) (call : GdbClient → Result ρ × GdbClient) :
    unwatched.Simulates (watched server r call) call where
  lost _ := False.elim
  agrees l c hrel := by
    obtain rfl : l.client = c := hrel
    exact Or.inr ⟨rfl, rfl⟩

theorem unwatched_simulates :
    Target.BackendSimulates unwatched (linkedOps server) (ops server) where
  cont := watched_unwatched server _ _
  step := watched_unwatched server _ _
  readRegisters := watched_unwatched server _ _
  readMemory _ _ := watched_unwatched server _ _
  fails _ _ := False.elim

end

/-- Sessions over two backends that agree. -/
theorem sessionOver_follows {α β : Type*} {L : Link α β} {ops : Backend α} {ops' : Backend β}
    (h : Target.BackendSimulates L ops ops') {fuel : ℕ} {calls : List Target.Call} {a : α} {b : β}
    (hrel : L.rel a b) {outcomes : List Target.Outcome} {t : Target α}
    (hrun : sessionOver fuel calls ops a = .ok (outcomes, t)) (hkept : ¬ L.lost t.backend) :
    ∃ t', sessionOver fuel calls ops' b = .ok (outcomes, t') ∧ Target.Alike L t t' := by
  unfold sessionOver at hrun ⊢
  cases hattach : Target.attach ops a with
  | error e =>
      rw [hattach] at hrun
      cases hrun
  | ok t₀ =>
      rw [hattach] at hrun
      have hsession : Target.session ops fuel calls t₀ = (outcomes, t) := Except.ok.inj hrun
      rcases Target.attach_follows h hrel hattach with hgone | ⟨t₁, hattach', halike⟩
      · have hlost := (Target.session_agrees h fuel calls).lost_of_eq hgone hsession
        exact absurd hlost hkept
      · rw [hattach']
        rcases (Target.session_agrees h fuel calls).follows halike hsession with
          hgone | ⟨t', hsession', halike'⟩
        · exact absurd hgone hkept
        · exact ⟨t', congrArg Except.ok hsession', halike'⟩

theorem sessionOver_lost {α β : Type*} {L : Link α β} {ops : Backend α} {ops' : Backend β}
    (h : Target.BackendSimulates L ops ops') {fuel : ℕ} {calls : List Target.Call} {a : α}
    (hgone : L.lost a) {outcomes : List Target.Outcome} {t : Target α}
    (hrun : sessionOver fuel calls ops a = .ok (outcomes, t)) : L.lost t.backend := by
  unfold sessionOver Target.attach at hrun
  rcases hrefresh : Target.refreshState ops { backend := a } with ⟨r, t₀⟩
  rw [hrefresh] at hrun
  cases r with
  | error e => cases hrun
  | ok u =>
      have hstart : L.lost t₀.backend :=
        (Target.refreshState_simulates h).lost_of_eq (a := { backend := a }) hgone hrefresh
      exact (Target.session_agrees h fuel calls).lost_of_eq hstart (Except.ok.inj hrun)

theorem attach_eq_linkedAttach (server : Server) (sock : TcpClient) :
    attach server (.ok sock) {} =
      ((linkedAttach server sock).1, (linkedAttach server sock).2.client) := by
  rcases hhalt : GdbClient.haltReason server
    (GdbClient.transact server reqQsupported { sock := sock }).2 with ⟨_ | _, c⟩ <;>
    simp only [attach, GdbClient.connect, linkedAttach, watched, Request.payload, hhalt]

section

variable {γ : Type*} {m : Guest γ} {handle : Handler γ} {cutting : Cutting}

/-- The client before the handshake. -/
theorem paired_start (g : γ) {sock : TcpClient} (hrequests : sock.requests = [])
    (hwire : sock.inFlight = []) :
    Paired handle cutting { guest := g } { client := { sock := sock } } g where
  kept := rfl
  quiet := by
    show Encodes ([] ++ sock.inFlight) []
    rw [hwire]
    exact .acks acks_nil
  idle := by
    show MockGdbServer.Idle (MockGdbServer.after _ _ _ sock.requests.reverse) g
    rw [hrequests]
    exact ⟨.acks acks_nil, rfl⟩

/-- Attaching leaves the guest as it is. -/
theorem linkedAttach_paired (h : Conforms m handle) (g : γ) {sock : TcpClient}
    (hrequests : sock.requests = []) (hwire : sock.inFlight = []) :
    (remote handle cutting { guest := g }).Agrees
      (linkedAttach (MockGdbServer.server handle cutting { guest := g }) sock) (.ok (), g) := by
  have hhalt : (remote handle cutting { guest := g }).Simulates
      (watched (MockGdbServer.server handle cutting { guest := g }) .haltReason fun c =>
        match c.haltReason (MockGdbServer.server handle cutting { guest := g }) with
        | (.error e, c) => (.error e, c)
        | (.ok _, c) => (.ok (), c)) (fun g => ((.ok () : Result Unit), g)) := by
    refine watched_simulates h (r := .haltReason) (readRequest_unsized rfl)
      (fun htransact _ => ?_) fun _ => rfl
    rw [Request.payload] at htransact
    rw [GdbClient.haltReason, htransact]
    rfl
  -- whatever the stub says to `qSupported`, its reply is not looked at
  rcases transact_paired h (paired_start g hrequests hwire) (r := .qSupported)
    (readRequest_unsized rfl) with ⟨e, c, hcall⟩ | ⟨p, c, hcall, -, hnext⟩
  · refine Or.inl (hhalt.lost _ ?_)
    show fails _ _ _ = true
    rw [fails, hcall]
  · refine hhalt.agrees _ g ⟨?_, ?_, ?_⟩
    · show fails _ _ _ = false
      rw [fails, hcall]
    · rw [hcall]
      exact hnext.quiet
    · rw [hcall]
      exact hnext.idle

/-- **Debugging over gdb-remote is debugging the guest.**  Over any network, in any session of
which every request gets its reply: the calls return what they return over the guest itself, the
target shows the same registers, pages and epoch, and the guest is left in the same state. -/
theorem debug_agrees (h : Conforms m handle) (g : γ) {sock : TcpClient}
    (hrequests : sock.requests = []) (hwire : sock.inFlight = []) {fuel : ℕ}
    {calls : List Target.Call}
    (hkept :
      disturbed (MockGdbServer.server handle cutting { guest := g }) fuel calls sock = false) :
    ∃ outcomes t t',
      debug (MockGdbServer.server handle cutting { guest := g }) fuel calls sock =
        .ok (outcomes, t) ∧
      sessionOver fuel calls m.ops g = .ok (outcomes, t') ∧
      t.state = t'.state ∧ t.cache = t'.cache ∧ t.epoch = t'.epoch ∧
      (MockGdbServer.after handle cutting { guest := g } t.backend.sock.requests.reverse).guest =
        t'.backend := by
  unfold disturbed linkedDebug at hkept
  rcases hattach : linkedAttach (MockGdbServer.server handle cutting { guest := g }) sock with
    ⟨_ | _, l⟩ <;> rw [hattach] at hkept
  · cases hkept
  dsimp only at hkept
  rcases hrun : sessionOver fuel calls
    (linkedOps (MockGdbServer.server handle cutting { guest := g })) l with _ | ⟨outcomes, t⟩ <;>
    rw [hrun] at hkept
  · cases hkept
  have hlost : ¬ (remote handle cutting { guest := g }).lost t.backend := by
    intro hgone
    exact Bool.false_ne_true (hkept.symm.trans hgone)
  -- what is lost in attaching stays lost
  have hpaired : Paired handle cutting { guest := g } l g := by
    have hagrees : (remote handle cutting { guest := g }).Agrees
        (linkedAttach (MockGdbServer.server handle cutting { guest := g }) sock) (.ok (), g) :=
      linkedAttach_paired h g hrequests hwire
    rw [hattach] at hagrees
    refine (hagrees.of_not_lost fun hgone => hlost ?_).2
    exact sessionOver_lost (linked_simulates h) hgone hrun
  obtain ⟨t', hdirect, halike⟩ := sessionOver_follows (linked_simulates h) hpaired hrun hlost
  obtain ⟨t₁, hplain, halike₁⟩ := sessionOver_follows
    (unwatched_simulates (MockGdbServer.server handle cutting { guest := g })) rfl hrun id
  refine ⟨outcomes, t₁, t', ?_, hdirect, ?_, ?_, ?_, ?_⟩
  · rw [debug, attach_eq_linkedAttach, hattach]
    exact hplain
  · rw [← halike₁.state, halike.state]
  · rw [← halike₁.cache, halike.cache]
  · rw [← halike₁.epoch, halike.epoch]
  · rw [← show t.backend.client = t₁.backend from halike₁.backend]
    exact halike.backend.idle.2

end

theorem debug_agrees_canned : ∃ outcomes t t',
    debug (MockGdbServer.server MockGdbServer.canned .whole { guest := () }) 0 [.cont, .step]
        { arrivals := List.replicate 12 (.bytes 3) ++ List.replicate 40 (.bytes 512) } =
      .ok (outcomes, t) ∧
    sessionOver 0 [.cont, .step] cannedGuest.ops () = .ok (outcomes, t') ∧
    t.state = t'.state ∧ t.cache = t'.cache ∧ t.epoch = t'.epoch ∧
    (MockGdbServer.after MockGdbServer.canned .whole { guest := () }
      t.backend.sock.requests.reverse).guest = t'.backend :=
  debug_agrees canned_conforms () rfl rfl (by decide +kernel)

/-! ## All operations of the backend -/

/-- The operations of the backend that send a request.  The size of a breakpoint is one digit, as
1, 2, 4 and 8 are. -/
inductive Operation
  | cont
  | step
  | readRegisters
  | readMemory (addr len : U64)
  | writeMemory (addr : U64) (data : Bytes) (fits : data.length < 2 ^ 64)
  | setBreakpoint (kind : Backend.BpKind) (addr : U64) (size : ℕ) (small : size < 10)
  | removeBreakpoint (kind : Backend.BpKind) (addr : U64) (size : ℕ) (small : size < 10)

/-- What they return. -/
inductive Outcome
  | stop (r : Result Backend.StopReply)
  | bytes (r : Result Bytes)
  | done (r : Result Unit)
  deriving DecidableEq

/-- The request of an operation. -/
def Operation.request : Operation → Request
  | cont => .cont
  | step => .step
  | readRegisters => .readRegisters
  | readMemory addr len => .readMemory addr len
  | writeMemory addr data fits => .writeMemory addr data fits
  | setBreakpoint kind addr size _ => .setBreakpoint kind addr size
  | removeBreakpoint kind addr size _ => .removeBreakpoint kind addr size

/-- A result of a kind, as an outcome. -/
def outcome {ρ β : Type*} (kind : Result ρ → Outcome) (x : Result ρ × β) : Outcome × β :=
  (kind x.1, x.2)

/-- An operation of `GdbBackend`. -/
def operate (server : Server) : Operation → GdbClient → Outcome × GdbClient
  | .cont, c => outcome .stop ((ops server).cont c)
  | .step, c => outcome .stop ((ops server).step c)
  | .readRegisters, c => outcome .bytes ((ops server).readRegisters c)
  | .readMemory addr len, c => outcome .bytes ((ops server).readMemory addr len c)
  | .writeMemory addr data _, c => outcome .done (c.writeMemory server addr data)
  | .setBreakpoint kind addr size _, c => outcome .done (setBreakpoint server kind addr size c)
  | .removeBreakpoint kind addr size _, c =>
    outcome .done (removeBreakpoint server kind addr size c)

/-- What is returned of a change that may be refused. -/
def changeResult {γ : Type*} (what : String) : Except Refusal γ → Result Unit
  | .ok _ => .ok ()
  | .error refusal => .error (what ++ ": not OK (" ++ textOf refusal.text ++ ")")

/-- A change of the guest that may be refused. -/
def change {γ : Type*} (what : String) (g : γ) (r : Except Refusal γ) : Result Unit × γ :=
  (changeResult what r, changed g r)

/-- The same operation on the guest itself. -/
def Guest.operate {γ : Type*} (m : Guest γ) : Operation → γ → Outcome × γ
  | .cont, g => outcome .stop (m.ops.cont g)
  | .step, g => outcome .stop (m.ops.step g)
  | .readRegisters, g => outcome .bytes (m.ops.readRegisters g)
  | .readMemory addr len, g => outcome .bytes (m.ops.readMemory addr len g)
  | .writeMemory addr data _, g =>
    outcome .done (change "write_memory" g (m.write addr data g))
  | .setBreakpoint kind addr size _, g =>
    outcome .done (change "set_breakpoint" g (m.setBreakpoint kind addr size g))
  | .removeBreakpoint kind addr size _, g =>
    outcome .done (change "remove_breakpoint" g (m.removeBreakpoint kind addr size g))

/-- An operation of the client, with its losses. -/
def linkedOperate (server : Server) (o : Operation) (l : Linked) : Outcome × Linked :=
  ((operate server o l.client).1,
    { client := (operate server o l.client).2
      lost := l.lost || fails server o.request.payload l.client })

/-- What `expect_ok` makes of the reply to a change. -/
theorem expectOk_of_acknowledges {γ : Type*} (what : String) {r : Except Refusal γ} {p : Bytes}
    (h : Acknowledges r p) : GdbClient.expectOk (.ok p) what = changeResult what r := by
  cases r with
  | ok g =>
      obtain rfl : p = ascii "OK" := h
      rfl
  | error refusal =>
      obtain rfl : p = refusal.text := h
      have hno : replyIsOk refusal.text = false := decide_eq_false refusal.ne_ok
      simp only [GdbClient.expectOk, hno, Bool.false_eq_true, if_false, changeResult]

section

variable {γ : Type*} {m : Guest γ} {handle : Handler γ} {cutting : Cutting}
  {start : MockGdbServer γ}

theorem change_simulates (h : Conforms m handle) {r : Request}
    (hread : readRequest 16 r.payload = some r) (what : String)
    (attempt : γ → Except Refusal γ) {call : GdbClient → Result Unit × GdbClient}
    (hcall : ∀ c, call c =
      (GdbClient.expectOk (c.transact (MockGdbServer.server handle cutting start) r.payload).1 what,
        (c.transact (MockGdbServer.server handle cutting start) r.payload).2))
    (hreplies : ∀ g p, m.Replies r g p → Acknowledges (attempt g) p)
    (hafter : ∀ g, m.after r g = changed g (attempt g)) :
    (remote handle cutting start).Simulates
      (watched (MockGdbServer.server handle cutting start) r call)
      (fun g => change what g (attempt g)) := by
  refine watched_simulates h hread (fun {c c' g p} htransact hreply => ?_)
    fun g => (hafter g).symm
  rw [hcall, htransact, expectOk_of_acknowledges what (hreplies g p hreply)]
  rfl

theorem operate_simulates (h : Conforms m handle) (o : Operation) :
    (remote handle cutting start).Simulates
      (linkedOperate (MockGdbServer.server handle cutting start) o) (m.operate o) := by
  have hbackend : Target.BackendSimulates (remote handle cutting start)
      (linkedOps (MockGdbServer.server handle cutting start)) m.ops := linked_simulates h
  cases o with
  | cont => exact hbackend.cont.map Outcome.stop
  | step => exact hbackend.step.map Outcome.stop
  | readRegisters => exact hbackend.readRegisters.map Outcome.bytes
  | readMemory addr len => exact (hbackend.readMemory addr len).map Outcome.bytes
  | writeMemory addr data fits =>
      exact (change_simulates h (r := .writeMemory addr data fits) (readRequest_unsized rfl)
        "write_memory" (m.write addr data) (fun _ => rfl) (fun _ _ => id) fun _ => rfl).map
          Outcome.done
  | setBreakpoint kind addr size small =>
      exact (change_simulates h (r := .setBreakpoint kind addr size) (readRequest_sized rfl small)
        "set_breakpoint" (m.setBreakpoint kind addr size) (fun _ => rfl) (fun _ _ => id)
          fun _ => rfl).map Outcome.done
  | removeBreakpoint kind addr size small =>
      exact (change_simulates h (r := .removeBreakpoint kind addr size)
        (readRequest_sized rfl small) "remove_breakpoint" (m.removeBreakpoint kind addr size)
          (fun _ => rfl) (fun _ _ => id) fun _ => rfl).map Outcome.done

/-- Operations one after the other: what they return, and the state after them. -/
def operateAll {β : Type*} (operate : Operation → β → Outcome × β) (os : List Operation) (b : β) :
    List Outcome × β :=
  run (fun o b => some (operate o b)) os b

theorem operateAll_simulates {α β : Type*} {L : Link α β} {operate : Operation → α → Outcome × α}
    {operate' : Operation → β → Outcome × β} (h : ∀ o, L.Simulates (operate o) (operate' o))
    (os : List Operation) : L.Simulates (operateAll operate os) (operateAll operate' os) :=
  Link.run_agrees (fun o => (h o).ifAny) os

theorem operate_unwatched (server : Server) (o : Operation) :
    unwatched.Simulates (linkedOperate server o) (operate server o) where
  lost _ := False.elim
  agrees l c hrel := by
    obtain rfl : l.client = c := hrel
    exact Or.inr ⟨rfl, rfl⟩

/-- **The backend is the guest.**  Any operations in any order return over the connection what
they return on the guest itself, and leave the guest in the same state, if every request of them
gets its reply. -/
theorem operateAll_agrees (h : Conforms m handle) (g : γ) {sock : TcpClient}
    (hrequests : sock.requests = []) (hwire : sock.inFlight = []) (os : List Operation)
    (hkept : (operateAll (linkedOperate (MockGdbServer.server handle cutting { guest := g })) os
      { client := { sock := sock } }).2.lost = false) :
    (operateAll (operate (MockGdbServer.server handle cutting { guest := g })) os
        { sock := sock }).1 = (operateAll m.operate os g).1 ∧
      (MockGdbServer.after handle cutting { guest := g }
        (operateAll (operate (MockGdbServer.server handle cutting { guest := g })) os
          { sock := sock }).2.sock.requests.reverse).guest = (operateAll m.operate os g).2 := by
  obtain ⟨hplain, hclient⟩ := ((operateAll_simulates (operate_unwatched
    (MockGdbServer.server handle cutting { guest := g })) os).agrees
      { client := { sock := sock } } { sock := sock } rfl).of_not_lost id
  obtain ⟨hresults, hpaired⟩ := ((operateAll_simulates (operate_simulates h) os).agrees
    { client := { sock := sock } } g (paired_start g hrequests hwire)).of_not_lost fun hgone =>
      Bool.false_ne_true (hkept.symm.trans hgone)
  refine ⟨hplain.symm.trans hresults, ?_⟩
  rw [← hpaired.idle.2, ← show _ = _ from hclient]

end

/-- A write, a watchpoint and a step. -/
def writeWatchStep : List Operation :=
  [.writeMemory 0x1000 [1, 2] (by decide), .setBreakpoint .writeWatch 0x1000 2 (by decide), .step]

theorem operateAll_agrees_canned :
    (operateAll (operate (MockGdbServer.server MockGdbServer.canned .whole { guest := () }))
        writeWatchStep { sock := { arrivals := List.replicate 40 (.bytes 3) } }).1 =
      (operateAll cannedGuest.operate writeWatchStep ()).1 ∧
    (MockGdbServer.after MockGdbServer.canned .whole { guest := () }
      (operateAll (operate (MockGdbServer.server MockGdbServer.canned .whole { guest := () }))
        writeWatchStep
        { sock := { arrivals := List.replicate 40 (.bytes 3) } }).2.sock.requests.reverse).guest =
      (operateAll cannedGuest.operate writeWatchStep ()).2 :=
  operateAll_agrees canned_conforms () rfl rfl _ (by decide +kernel)

end Irida.GdbBackend
