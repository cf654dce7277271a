import Irida.Target.RegisterLayout
import Irida.Target.Serves

/-!
# The backtrace

`core_backtrace` of `capi_target.cpp` walks the chain of frame pointers.  It tests the saved frame
pointer before it keeps the return address that lies beside it, so that the outermost frame, which
saves zero, ends the walk together with its return address.  `coreBacktrace_chain` says that the
last return address of a chain is missing, whatever its length; `coreBacktrace_bounded` that no
stack makes the walk run on or come back to a frame.
-/

namespace Irida.Api

open Target

/-- `kMaxBacktraceFrames`. -/
def kMaxBacktraceFrames : ℕ := 64

/-- `IridaFrame`. -/
structure IridaFrame where
  pc : U64
  framePtr : U64
  deriving DecidableEq, Repr

/-- The 64-bit number at the start of a buffer. -/
def loadU64 (bytes : Bytes) : U64 :=
  BitVec.ofNat 64 (LittleEndian.value (bytes.take 8))

section

variable {β : Type*} (ops : Backend β)

/-- The loop of `core_backtrace`. -/
def walkFrames : ℕ → U64 → Target β → List IridaFrame × Target β
  | 0, _, t => ([], t)
  | n + 1, fp, t =>
    match t.readMemory ops fp 16 with
    | (.error _, t) => ([], t)
    | (.ok frameMem, t) =>
      if frameMem.length < 16 then ([], t)
      else
        let savedRbp := loadU64 frameMem
        let retAddr := loadU64 (frameMem.drop 8)
        if savedRbp ≤ fp ∨ retAddr = 0 then ([], t)
        else
          let (rows, t) := walkFrames n savedRbp t
          (⟨retAddr, savedRbp⟩ :: rows, t)

/-- `core_backtrace`. -/
def coreBacktrace (t : Target β) : List IridaFrame × Target β :=
  let regs := t.state.registers
  let pc := (regs.get "rip").getD 0
  let fp := (regs.get "rbp").getD 0
  let (rows, t) := walkFrames ops kMaxBacktraceFrames fp t
  (⟨pc, fp⟩ :: rows, t)

end

/-! ## Chains of frames -/

/-- The 64-bit number at an address. -/
def guestWord (mem : U64 → Byte) (addr : U64) : U64 :=
  BitVec.ofNat 64 (LittleEndian.value (guestBytes mem addr 8))

/-- A frame that can be read: the frame pointer of the caller, and the return address. -/
structure FrameAt (mem : U64 → Byte) (mapped : U64 → Bool) (fp savedRbp retAddr : U64) : Prop where
  readable : AllMapped mapped fp 16
  saved : guestWord mem fp = savedRbp
  ret : guestWord mem (fp + 8) = retAddr
  ret_ne_zero : retAddr ≠ 0

/-- A well-formed chain of frames, with the return addresses in order: every frame saves a larger
frame pointer, up to the outermost one, which saves zero. -/
inductive FrameChain (mem : U64 → Byte) (mapped : U64 → Bool) : U64 → List U64 → Prop
  | outermost {fp retAddr : U64} : FrameAt mem mapped fp 0 retAddr →
      FrameChain mem mapped fp [retAddr]
  | frame {fp savedRbp retAddr : U64} {rets : List U64} :
      FrameAt mem mapped fp savedRbp retAddr → fp < savedRbp →
      FrameChain mem mapped savedRbp rets → FrameChain mem mapped fp (retAddr :: rets)

theorem FrameChain.ne_nil {mem : U64 → Byte} {mapped : U64 → Bool} {fp : U64} {rets : List U64}
    (h : FrameChain mem mapped fp rets) : rets ≠ [] := by
  cases h <;> exact List.cons_ne_nil _ _

theorem drop_guestBytes (mem : U64 → Byte) (addr : U64) (k n : ℕ) :
    (guestBytes mem addr (k + n)).drop k = guestBytes mem (addr + BitVec.ofNat 64 k) n := by
  apply List.ext_getElem?
  intro i
  rw [List.getElem?_drop]
  rcases Nat.lt_or_ge i n with h | h
  · rw [getElem?_guestBytes _ _ (by omega), getElem?_guestBytes _ _ h, BitVec.ofNat_add,
      BitVec.add_assoc]
  · rw [List.getElem?_eq_none (by rw [length_guestBytes]; omega),
      List.getElem?_eq_none (by rw [length_guestBytes]; exact h)]

theorem loadU64_guestBytes (mem : U64 → Byte) (addr : U64) :
    loadU64 (guestBytes mem addr 16) = guestWord mem addr := by
  rw [loadU64, take_guestBytes, guestWord]
  rfl

theorem loadU64_drop_guestBytes (mem : U64 → Byte) (addr : U64) :
    loadU64 ((guestBytes mem addr 16).drop 8) = guestWord mem (addr + 8) := by
  rw [show 16 = 8 + 8 from rfl, drop_guestBytes, loadU64, take_guestBytes, guestWord]
  rfl

/-! ## What the walk finds -/

section

variable {β : Type*} {ops : Backend β} {Live : β → Prop} {mem : U64 → Byte} {mapped : U64 → Bool}

/-- One round at a frame that can be read. -/
theorem walkFrames_frameAt (hserves : Serves ops Live mem mapped) {t : Target β}
    (hstop : AtStop ops Live t) {fp savedRbp retAddr : U64}
    (hframe : FrameAt mem mapped fp savedRbp retAddr) (n : ℕ) :
    ∃ t', AtStop ops Live t' ∧ walkFrames ops (n + 1) fp t =
      if savedRbp ≤ fp then ([], t')
      else (⟨retAddr, savedRbp⟩ :: (walkFrames ops n savedRbp t').1,
        (walkFrames ops n savedRbp t').2) := by
  refine ⟨(t.readMemory ops fp 16).2, .readMemory fp 16 hstop, ?_⟩
  have hread : (t.readMemory ops fp 16).1 = .ok (guestBytes mem fp 16) := by
    rcases hstop.readMemory_fst hserves fp 16 with ⟨-, hok⟩ | ⟨hnot, -⟩
    · exact hok
    · exact absurd hframe.readable hnot
  rw [walkFrames]
  cases hres : t.readMemory ops fp 16 with
  | mk r t' =>
      rw [hres] at hread
      obtain rfl : r = .ok (guestBytes mem fp 16) := hread
      dsimp only
      rw [if_neg (by rw [length_guestBytes]; decide), loadU64_guestBytes, loadU64_drop_guestBytes,
        hframe.saved, hframe.ret]
      simp only [hframe.ret_ne_zero, or_false]

/-- The walk along a chain finds every return address but the last one. -/
theorem walkFrames_chain (hserves : Serves ops Live mem mapped) {fp : U64} {rets : List U64}
    (hchain : FrameChain mem mapped fp rets) {t : Target β} (hstop : AtStop ops Live t) {n : ℕ}
    (hn : rets.length ≤ n + 1) :
    (walkFrames ops n fp t).1.map IridaFrame.pc = rets.dropLast := by
  induction hchain generalizing n t with
  | @outermost fp retAddr hframe =>
      cases n with
      | zero => rfl
      | succ n =>
          obtain ⟨t', -, hwalk⟩ := walkFrames_frameAt hserves hstop hframe n
          have hzero : (0 : U64) ≤ fp := BitVec.le_def.mpr (Nat.zero_le _)
          rw [hwalk, if_pos hzero]
          rfl
  | @frame fp savedRbp retAddr rets hframe hlt hchain ih =>
      have hlen : 0 < rets.length := List.length_pos_of_ne_nil hchain.ne_nil
      rw [List.length_cons] at hn
      obtain ⟨n, rfl⟩ : ∃ k, n = k + 1 := ⟨n - 1, by omega⟩
      obtain ⟨t', hstop', hwalk⟩ := walkFrames_frameAt hserves hstop hframe n
      rw [hwalk, if_neg (BitVec.not_le.mpr hlt), List.map_cons, ih hstop' (by omega),
        List.dropLast_cons_of_ne_nil hchain.ne_nil]

/-- A backtrace along a chain has the program counter and every return address but the last. -/
theorem coreBacktrace_chain (hserves : Serves ops Live mem mapped) {t : Target β}
    (hstop : AtStop ops Live t) {rets : List U64}
    (hchain : FrameChain mem mapped ((t.state.registers.get "rbp").getD 0) rets)
    (hlen : rets.length ≤ kMaxBacktraceFrames) :
    (coreBacktrace ops t).1.map IridaFrame.pc =
      (t.state.registers.get "rip").getD 0 :: rets.dropLast := by
  rw [coreBacktrace, ← walkFrames_chain hserves hchain hstop (Nat.le_succ_of_le hlen)]
  rfl

end

section

variable {β : Type*} (ops : Backend β)

/-- The frame pointers of a walk rise, and are above that from which it starts. -/
theorem walkFrames_bounded (n : ℕ) (fp : U64) (t : Target β) :
    (walkFrames ops n fp t).1.length ≤ n ∧
      (fp :: (walkFrames ops n fp t).1.map IridaFrame.framePtr).Pairwise (· < ·) := by
  induction n generalizing fp t with
  | zero => simp [walkFrames]
  | succ n ih =>
      have hnone : ∀ t : Target β, (([], t) : List IridaFrame × Target β).1.length ≤ n + 1 ∧
          (fp :: (([], t) : List IridaFrame × Target β).1.map IridaFrame.framePtr).Pairwise
            (· < ·) := fun t => ⟨Nat.zero_le _, List.pairwise_singleton _ _⟩
      rw [walkFrames]
      split
      · exact hnone _
      · next frameMem t _ =>
          split
          · exact hnone _
          · dsimp only
            split
            · exact hnone _
            · next hnext =>
                -- the walk goes on from a larger frame pointer
                have hlt : fp < loadU64 frameMem := BitVec.not_le.mp (not_or.mp hnext).1
                obtain ⟨hlen, hrise⟩ := ih (loadU64 frameMem) t
                refine ⟨Nat.succ_le_succ hlen, List.pairwise_cons.mpr ⟨fun p hp => ?_, hrise⟩⟩
                rcases List.mem_cons.mp hp with rfl | hmem
                · exact hlt
                · exact BitVec.lt_trans hlt ((List.pairwise_cons.mp hrise).1 p hmem)

/-- Whatever the memory holds, a backtrace has at most 65 rows and comes to no frame twice. -/
theorem coreBacktrace_bounded (t : Target β) :
    (coreBacktrace ops t).1.length ≤ 65 ∧
      ((coreBacktrace ops t).1.map IridaFrame.framePtr).Nodup := by
  obtain ⟨hlen, hrise⟩ :=
    walkFrames_bounded ops kMaxBacktraceFrames ((t.state.registers.get "rbp").getD 0) t
  exact ⟨Nat.succ_le_succ hlen, hrise.imp fun hlt => (BitVec.ne_of_lt hlt)⟩

end

/-- **What a backtrace recovers.**  Of a chain of `k` frames it never shows all the return
addresses, but exactly all except the last; and on any memory it is bounded and free of cycles. -/
theorem backtrace_dropsOutermost {β : Type*} (ops : Backend β) :
    (∀ (Live : β → Prop) (mem : U64 → Byte) (mapped : U64 → Bool) (t : Target β) (rets : List U64),
      Serves ops Live mem mapped → AtStop ops Live t →
      FrameChain mem mapped ((t.state.registers.get "rbp").getD 0) rets →
      rets.length ≤ kMaxBacktraceFrames →
        (coreBacktrace ops t).1.map IridaFrame.pc ≠
            (t.state.registers.get "rip").getD 0 :: rets ∧
          (coreBacktrace ops t).1.map IridaFrame.pc =
            (t.state.registers.get "rip").getD 0 :: rets.dropLast) ∧
    ∀ t : Target β, (coreBacktrace ops t).1.length ≤ 65 ∧
      ((coreBacktrace ops t).1.map IridaFrame.framePtr).Nodup := by
  refine ⟨fun Live mem mapped t rets hserves hstop hchain hlen => ?_, coreBacktrace_bounded ops⟩
  have hrows := coreBacktrace_chain hserves hstop hchain hlen
  refine ⟨fun hall => ?_, hrows⟩
  have hshort : rets.dropLast = rets := by
    rw [hrows] at hall
    exact (List.cons.inj hall).2
  have hlength := congrArg List.length hshort
  rw [List.length_dropLast] at hlength
  have := List.length_pos_of_ne_nil hchain.ne_nil
  omega

/-! ## A stack of two frames -/

/-- Two frames at the start of a page: at `0x1000` with the return address `0x40`, and its caller's
at `0x1100` with the return address `0x50`. -/
def twoFrames (addr : U64) : Byte :=
  if addr = 0x1001 then 0x11
  else if addr = 0x1008 then 0x40
  else if addr = 0x1108 then 0x50
  else 0

/-- The page of the stack is the only one that is mapped. -/
def stackMapped (page : U64) : Bool :=
  page = 0x1000

/-- The registers in the callee. -/
def calleeContext : Host.Context :=
  { rip := 0x30, rbp := 0x1000 }

/-- A backend that serves the page of the stack. -/
def twoFramesOps : Backend Unit where
  cont _ := (.ok {}, ())
  step _ := (.ok {}, ())
  readRegisters _ := (.ok (Host.contextToBlock calleeContext), ())
  readMemory addr len _ :=
    (if stackMapped addr then .ok (guestBytes twoFrames addr len.toNat)
      else .error "read_memory: target error E1", ())

private theorem twoFrames_serves :
    Serves twoFramesOps (fun _ => True) twoFrames stackMapped where
  served _ _ hmapped := ⟨(), trivial, by simp [twoFramesOps, hmapped]⟩
  refused _ _ hmapped := ⟨_, (), trivial, by simp only [twoFramesOps, hmapped]; rfl⟩

/-- The target that `attach` returns. -/
def twoFramesTarget : Target Unit :=
  { backend := (), cache := MemoryCache.setEpoch {} 1, epoch := 1
    state := { epoch := 1, registers := decoded (Host.contextToBlock calleeContext) } }

private theorem twoFramesTarget_atStop : AtStop twoFramesOps (fun _ => True) twoFramesTarget := by
  have hattach : Target.attach twoFramesOps () = .ok twoFramesTarget := by
    unfold Target.attach Target.refreshState
    simp only [twoFramesOps, decode_eq]
    rfl
  exact .attach hattach trivial

private theorem twoFrames_chain :
    FrameChain twoFrames stackMapped ((twoFramesTarget.state.registers.get "rbp").getD 0)
      [0x40, 0x50] := by
  have hmem : ("rbp", (0x1000 : U64)) ∈ registersOf calleeContext := by decide
  have hget := get_decoded_contextToBlock calleeContext hmem
  have hregs : twoFramesTarget.state.registers =
      decoded (Host.contextToBlock calleeContext) := rfl
  have hword : ∀ addr v, LittleEndian.value ((List.range 8).map fun i =>
      twoFrames (addr + BitVec.ofNat 64 i)) = v → guestWord twoFrames addr = BitVec.ofNat 64 v := by
    intro addr v h
    unfold guestWord guestBytes
    rw [h]
  have hcallee : FrameAt twoFrames stackMapped 0x1000 0x1100 0x40 :=
    ⟨by decide, hword _ 0x1100 (by decide), hword _ 0x40 (by decide), by decide⟩
  have hcaller : FrameAt twoFrames stackMapped 0x1100 0 0x50 :=
    ⟨by decide, hword _ 0 (by decide), hword _ 0x50 (by decide), by decide⟩
  rw [hregs, hget]
  exact .frame hcallee (by decide) (.outermost hcaller)

/-- The backtrace of a chain of two frames has two rows. -/
theorem not_backtrace_twoFrames :
    ¬ ∀ (β : Type) (ops : Backend β) (Live : β → Prop) (mem : U64 → Byte) (mapped : U64 → Bool)
      (t : Target β) (rets : List U64), Serves ops Live mem mapped → AtStop ops Live t →
      FrameChain mem mapped ((t.state.registers.get "rbp").getD 0) rets →
      rets.length ≤ kMaxBacktraceFrames →
        (coreBacktrace ops t).1.map IridaFrame.pc =
          (t.state.registers.get "rip").getD 0 :: rets := by
  intro h
  have hall := h Unit twoFramesOps _ _ _ twoFramesTarget _ twoFrames_serves twoFramesTarget_atStop
    twoFrames_chain (by decide)
  rw [coreBacktrace_chain twoFrames_serves twoFramesTarget_atStop twoFrames_chain
    (by decide)] at hall
  exact absurd (congrArg List.length hall) (by decide)

end Irida.Api
