import Irida.Proto.Packets
import Irida.Target.MemoryCache

/-!
# The target

`target.cpp`, `guest_state.cpp` and `register_set.cpp`: the backend together with
the snapshot of the last stop.  `refresh_state` is the only place where the cache
is rotated, and it is reached only when nothing failed before it.
-/

namespace Irida

/-! ## Registers -/

/-- `RegisterSet`. -/
structure RegisterSet where
  regs : List (String × U64) := []
  deriving DecidableEq, Repr

namespace RegisterSet

/-- `kQwordRegs`. -/
def kQwordRegs : List String :=
  ["rax", "rbx", "rcx", "rdx", "rsi", "rdi", "rbp", "rsp", "r8", "r9", "r10", "r11", "r12", "r13",
    "r14", "r15", "rip"]

/-- `kEflagsName`. -/
def kEflagsName : String := "eflags"

/-- `decode_le`. -/
def decodeLe : Bytes → U64
  | [] => 0
  | b :: rest => b.setWidth 64 ||| decodeLe rest <<< 8

/-- The loop of `decode` over the 64-bit slots, and what is left of the block. -/
def decodeQwords : List String → Bytes → List (String × U64) × Bytes
  | [], block => ([], block)
  | name :: names, block =>
    if block = [] then ([], [])
    else
      let (regs, rest) := decodeQwords names (block.drop 8)
      ((name, decodeLe (block.take 8)) :: regs, rest)

/-- `RegisterSet::decode`.  A short block gives fewer registers, not an error. -/
def decode (gBlock : Bytes) : Result RegisterSet :=
  let (regs, rest) := decodeQwords kQwordRegs gBlock
  if rest = [] then .ok ⟨regs⟩
  else .ok ⟨regs ++ [(kEflagsName, decodeLe (rest.take 4))]⟩

/-- `get`. -/
def get (r : RegisterSet) (name : String) : Option U64 :=
  (r.regs.find? fun reg => reg.1 = name).map Prod.snd

end RegisterSet

/-! ## The target -/

/-- `GuestState`. -/
structure GuestState where
  epoch : U64 := 0
  registers : RegisterSet := {}
  deriving DecidableEq, Repr

/-- `Target`, over the state of its backend. -/
structure Target (β : Type*) where
  backend : β
  cache : MemoryCache := {}
  epoch : U64 := 0
  state : GuestState := {}

/-- `to_proto_stop_reply`. -/
def toProtoStopReply (s : Backend.StopReply) : Proto.StopReply :=
  { kind :=
      match s.kind with
      | .breakpoint | .singleStep | .signal => .signal
      | .exited => .exited
      | .error | .unknown => .unknown
    code := s.signal
    output := s.detail }

namespace Target

variable {β : Type*} (ops : Backend β)

/-- `refresh_state`. -/
def refreshState (t : Target β) : Result Unit × Target β :=
  match ops.readRegisters t.backend with
  | (.error e, b) => (.error e, { t with backend := b })
  | (.ok rawRegs, b) =>
    match RegisterSet.decode rawRegs with
    | .error e => (.error e, { t with backend := b })
    | .ok registers =>
      let epoch := t.epoch + 1
      (.ok (),
        { backend := b
          cache := t.cache.setEpoch epoch
          epoch := epoch
          state := { epoch := epoch, registers := registers } })

/-- `Target::attach`. -/
def attach (b : β) : Result (Target β) :=
  match refreshState ops { backend := b } with
  | (.error e, _) => .error e
  | (.ok _, t) => .ok t

/-- The body shared by `cont` and `step`. -/
def resume (run : β → Result Backend.StopReply × β) (t : Target β) :
    Result Proto.StopReply × Target β :=
  match run t.backend with
  | (.error e, b) => (.error e, { t with backend := b })
  | (.ok stop, b) =>
    match refreshState ops { t with backend := b } with
    | (.error e, t) => (.error e, t)
    | (.ok _, t) => (.ok (toProtoStopReply stop), t)

/-- `cont`. -/
def cont (t : Target β) : Result Proto.StopReply × Target β :=
  resume ops ops.cont t

/-- `step`. -/
def step (t : Target β) : Result Proto.StopReply × Target β :=
  resume ops ops.step t

/-- `read_memory`, which is `GuestState::read`. -/
def readMemory (addr len : U64) (t : Target β) : Result Bytes × Target β :=
  match t.cache.read ops addr len t.backend with
  | (r, cache, b) => (r, { t with cache := cache, backend := b })

/-- `memory_changed`. -/
def memoryChanged (fuel : ℕ) (addr len : U64) (t : Target β) : Option (Bool × Target β) :=
  match t.cache.changedSinceLastEpoch ops fuel addr len t.backend with
  | none => none
  | some (changed, cache, b) => some (changed, { t with cache := cache, backend := b })

variable {ops}

/-- What `refresh_state` does to the cache: it is rotated on success, and left as
it was on an error. -/
theorem refreshState_cases {t t' : Target β} {r : Result Unit}
    (h : refreshState ops t = (r, t')) :
    (t'.backend = (ops.readRegisters t.backend).2) ∧
      ((∃ epoch, r = .ok () ∧ t'.cache = t.cache.setEpoch epoch) ∨
        (∃ e, r = .error e) ∧ t'.cache = t.cache) := by
  unfold refreshState at h
  split at h
  · next heq =>
      cases h
      exact ⟨by rw [heq], Or.inr ⟨⟨_, rfl⟩, rfl⟩⟩
  · next heq =>
      split at h
      · cases h
        exact ⟨by rw [heq], Or.inr ⟨⟨_, rfl⟩, rfl⟩⟩
      · cases h
        exact ⟨by rw [heq], Or.inl ⟨_, rfl, rfl⟩⟩

theorem attach_cache {b : β} {t : Target β} (h : attach ops b = .ok t) :
    ∃ epoch, t.cache = MemoryCache.setEpoch {} epoch := by
  unfold attach at h
  split at h
  · cases h
  · next hrefresh =>
      cases h
      obtain ⟨-, ⟨epoch, -, hcache⟩ | ⟨⟨_, herr⟩, -⟩⟩ := refreshState_cases hrefresh
      · exact ⟨epoch, hcache⟩
      · cases herr

/-- **What a run call does to the cache.**  Only a call that succeeds rotates it. -/
theorem resume_cases {run : β → Result Backend.StopReply × β} {t t' : Target β}
    {r : Result Proto.StopReply} (h : resume ops run t = (r, t')) :
    (t'.backend = (run t.backend).2 ∨
        t'.backend = (ops.readRegisters (run t.backend).2).2) ∧
      ((∃ stop epoch, r = .ok stop ∧ t'.cache = t.cache.setEpoch epoch) ∨
        (∃ e, r = .error e) ∧ t'.cache = t.cache) := by
  unfold resume at h
  split at h
  · next heq =>
      cases h
      exact ⟨Or.inl (by rw [heq]), Or.inr ⟨⟨_, rfl⟩, rfl⟩⟩
  · next heq =>
      split at h
      · next hrefresh =>
          cases h
          obtain ⟨hb, ⟨_, hok, -⟩ | ⟨-, hcache⟩⟩ := refreshState_cases hrefresh
          · cases hok
          · exact ⟨Or.inr (by rw [hb, heq]), Or.inr ⟨⟨_, rfl⟩, hcache⟩⟩
      · next hrefresh =>
          cases h
          obtain ⟨hb, ⟨epoch, -, hcache⟩ | ⟨⟨_, herr⟩, -⟩⟩ := refreshState_cases hrefresh
          · exact ⟨Or.inr (by rw [hb, heq]), Or.inl ⟨_, epoch, rfl, hcache⟩⟩
          · cases herr

theorem resume_ok {run : β → Result Backend.StopReply × β} {t t' : Target β}
    {reply : Proto.StopReply} (h : resume ops run t = (.ok reply, t')) :
    ∃ stop b, run t.backend = (.ok stop, b) ∧ reply = toProtoStopReply stop := by
  unfold resume at h
  split at h
  · cases h
  · next stop b heq =>
      split at h
      · cases h
      · cases h
        exact ⟨stop, b, heq, rfl⟩

/-- What the page reads of a comparison keep, `memory_changed` keeps. -/
theorem memoryChanged_induct {P : MemoryCache → β → Prop}
    (hstep : ∀ page c b, pageAddr page = page → P c b →
      P (MemoryCache.readPage ops page c b).2.1 (MemoryCache.readPage ops page c b).2.2)
    {fuel : ℕ} {addr len : U64} {t t' : Target β} {changed : Bool} (h : P t.cache t.backend)
    (hrun : t.memoryChanged ops fuel addr len = some (changed, t')) : P t'.cache t'.backend := by
  unfold Target.memoryChanged at hrun
  split at hrun
  · cases hrun
  · next hloop =>
      obtain ⟨rfl, rfl⟩ : _ ∧ _ := by simpa using hrun
      exact MemoryCache.changedSinceLastEpoch_induct hstep h hloop

theorem read_of_readMemory {t t' : Target β} {addr len : U64} {r : Result Bytes}
    (h : t.readMemory ops addr len = (r, t')) :
    t.cache.read ops addr len t.backend = (r, t'.cache, t'.backend) := by
  unfold Target.readMemory at h
  cases h
  rfl

end Target

end Irida
