import Irida.Base
import Irida.Lib.LittleEndian

/-!
# Thread contexts

`native_debuggee.cpp`: the registers of a thread as Windows gives them, and the
fixed block of 32 slots in which the backend sees them.  Both directions go
through the slots in one order (`context_roundTrips`).
-/

namespace Irida.Host

/-- `CONTEXT`, as `GetThreadContext` fills it; `rest` is all that the register
block does not carry. -/
structure Context where
  rax : U64 := 0
  rbx : U64 := 0
  rcx : U64 := 0
  rdx : U64 := 0
  rsi : U64 := 0
  rdi : U64 := 0
  rbp : U64 := 0
  rsp : U64 := 0
  r8 : U64 := 0
  r9 : U64 := 0
  r10 : U64 := 0
  r11 : U64 := 0
  r12 : U64 := 0
  r13 : U64 := 0
  r14 : U64 := 0
  r15 : U64 := 0
  rip : U64 := 0
  eFlags : U32 := 0
  segCs : BitVec 16 := 0
  segSs : BitVec 16 := 0
  segDs : BitVec 16 := 0
  segEs : BitVec 16 := 0
  segFs : BitVec 16 := 0
  segGs : BitVec 16 := 0
  dr0 : U64 := 0
  dr1 : U64 := 0
  dr2 : U64 := 0
  dr3 : U64 := 0
  dr6 : U64 := 0
  dr7 : U64 := 0
  rest : Bytes := []
  deriving DecidableEq, Repr

/-- The context with another `rip`. -/
def Context.withRip (ctx : Context) (rip : U64) : Context :=
  { ctx with rip := rip }

@[simp] theorem Context.withRip_rest (ctx : Context) (rip : U64) :
    (ctx.withRip rip).rest = ctx.rest :=
  rfl

@[simp] theorem Context.withRip_withRip (ctx : Context) (rip rip' : U64) :
    (ctx.withRip rip).withRip rip' = ctx.withRip rip' :=
  rfl

/-- `kNumSlots`. -/
def kNumSlots : ℕ := 32

/-- `kRegBlockSize`. -/
def kRegBlockSize : ℕ := kNumSlots * 8

/-- The slots of the block, in the order of `context_to_block`. -/
def Context.slots (ctx : Context) : List ℕ :=
  [ctx.rax.toNat, ctx.rbx.toNat, ctx.rcx.toNat, ctx.rdx.toNat, ctx.rsi.toNat, ctx.rdi.toNat,
    ctx.rbp.toNat, ctx.rsp.toNat, ctx.r8.toNat, ctx.r9.toNat, ctx.r10.toNat, ctx.r11.toNat,
    ctx.r12.toNat, ctx.r13.toNat, ctx.r14.toNat, ctx.r15.toNat, ctx.rip.toNat, ctx.eFlags.toNat,
    ctx.segCs.toNat, ctx.segSs.toNat, ctx.segDs.toNat, ctx.segEs.toNat, ctx.segFs.toNat,
    ctx.segGs.toNat, ctx.dr0.toNat, ctx.dr1.toNat, ctx.dr2.toNat, ctx.dr3.toNat, ctx.dr6.toNat,
    ctx.dr7.toNat, 0, 0]

/-- `context_to_block`. -/
def contextToBlock (ctx : Context) : Bytes :=
  LittleEndian.block 8 ctx.slots

/-- `get_slot`. -/
def getSlot (block : Bytes) (slotIndex : ℕ) : U64 :=
  BitVec.ofNat 64 (LittleEndian.value (LittleEndian.slot 8 block slotIndex))

/-- `block_to_context`.  What the block does not carry is kept. -/
def blockToContext (block : Bytes) (ctx : Context) : Context :=
  { rax := getSlot block 0
    rbx := getSlot block 1
    rcx := getSlot block 2
    rdx := getSlot block 3
    rsi := getSlot block 4
    rdi := getSlot block 5
    rbp := getSlot block 6
    rsp := getSlot block 7
    r8 := getSlot block 8
    r9 := getSlot block 9
    r10 := getSlot block 10
    r11 := getSlot block 11
    r12 := getSlot block 12
    r13 := getSlot block 13
    r14 := getSlot block 14
    r15 := getSlot block 15
    rip := getSlot block 16
    eFlags := (getSlot block 17).setWidth 32
    segCs := (getSlot block 18).setWidth 16
    segSs := (getSlot block 19).setWidth 16
    segDs := (getSlot block 20).setWidth 16
    segEs := (getSlot block 21).setWidth 16
    segFs := (getSlot block 22).setWidth 16
    segGs := (getSlot block 23).setWidth 16
    dr0 := getSlot block 24
    dr1 := getSlot block 25
    dr2 := getSlot block 26
    dr3 := getSlot block 27
    dr6 := getSlot block 28
    dr7 := getSlot block 29
    rest := ctx.rest }

@[simp] theorem length_contextToBlock (ctx : Context) :
    (contextToBlock ctx).length = kRegBlockSize := by
  rw [contextToBlock, LittleEndian.length_block]
  rfl

theorem getSlot_contextToBlock (ctx : Context) {i v : ℕ} (h : ctx.slots[i]? = some v) :
    getSlot (contextToBlock ctx) i = BitVec.ofNat 64 v := by
  rw [getSlot, contextToBlock, LittleEndian.slot_block 8 ctx.slots h, LittleEndian.value_bytes]
  exact BitVec.eq_of_toNat_eq (by simp)

private theorem setWidth_ofNat_toNat {w : ℕ} (hw : w ≤ 64) (v : BitVec w) :
    (BitVec.ofNat 64 v.toNat).setWidth w = v := by
  apply BitVec.eq_of_toNat_eq
  have hlt : v.toNat < 2 ^ 64 := v.isLt.trans_le (Nat.pow_le_pow_right (by decide) hw)
  rw [BitVec.toNat_setWidth, BitVec.toNat_ofNat, Nat.mod_eq_of_lt hlt, Nat.mod_eq_of_lt v.isLt]

/-- A context comes back from its block. -/
theorem blockToContext_contextToBlock (c c₀ : Context) :
    blockToContext (contextToBlock c) c₀ = { c with rest := c₀.rest } := by
  have hslot : ∀ {i v : ℕ}, c.slots[i]? = some v →
      getSlot (contextToBlock c) i = BitVec.ofNat 64 v := getSlot_contextToBlock c
  have hqword : ∀ {i : ℕ} {v : U64}, c.slots[i]? = some v.toNat →
      getSlot (contextToBlock c) i = v := fun h => by
    rw [hslot h, BitVec.ofNat_toNat, BitVec.setWidth_eq]
  have hnarrow : ∀ {w i : ℕ} {v : BitVec w}, w ≤ 64 → c.slots[i]? = some v.toNat →
      (getSlot (contextToBlock c) i).setWidth w = v := fun hw h => by
    rw [hslot h, setWidth_ofNat_toNat hw]
  simp only [blockToContext, Context.mk.injEq]
  refine ⟨hqword rfl, hqword rfl, hqword rfl, hqword rfl, hqword rfl, hqword rfl, hqword rfl,
    hqword rfl, hqword rfl, hqword rfl, hqword rfl, hqword rfl, hqword rfl, hqword rfl, hqword rfl,
    hqword rfl, hqword rfl, hnarrow (by decide) rfl, hnarrow (by decide) rfl,
    hnarrow (by decide) rfl, hnarrow (by decide) rfl, hnarrow (by decide) rfl,
    hnarrow (by decide) rfl, hnarrow (by decide) rfl, hqword rfl, hqword rfl, hqword rfl,
    hqword rfl, hqword rfl, hqword rfl, trivial⟩

/-- How many bytes of slot `i` a context holds.  The two last slots are reserved. -/
def slotWidth (i : ℕ) : ℕ :=
  if i = 17 then 4 else if 18 ≤ i ∧ i < 24 then 2 else if 30 ≤ i then 0 else 8

/-- The block with the eflags slot reduced to 32 bits, the segment slots to 16, and
the reserved slots zero. -/
def reducedBlock (block : Bytes) : Bytes :=
  LittleEndian.lowBytes 8 slotWidth block

theorem slotWidth_le (i : ℕ) : slotWidth i ≤ 8 := by
  unfold slotWidth
  split_ifs <;> omega

theorem toNat_getSlot (block : Bytes) (i : ℕ) :
    (getSlot block i).toNat = LittleEndian.value (LittleEndian.slot 8 block i) % 256 ^ 8 := by
  rw [getSlot, BitVec.toNat_ofNat]
  rfl

theorem toNat_setWidth_getSlot {w n : ℕ} (hw : 2 ^ w = 256 ^ n) (hn : n ≤ 8) (block : Bytes)
    (i : ℕ) : ((getSlot block i).setWidth w).toNat =
      LittleEndian.value (LittleEndian.slot 8 block i) % 256 ^ n := by
  rw [BitVec.toNat_setWidth, toNat_getSlot, hw, Nat.mod_mod_of_dvd _ (Nat.pow_dvd_pow 256 hn)]

theorem slots_blockToContext (block : Bytes) (c₀ : Context) :
    (blockToContext block c₀).slots = (List.range kNumSlots).map fun i =>
      LittleEndian.value (LittleEndian.slot 8 block i) % 256 ^ slotWidth i := by
  have hdword : 2 ^ 32 = 256 ^ 4 := by decide
  have hword : 2 ^ 16 = 256 ^ 2 := by decide
  have hreserved : ∀ i, 30 ≤ i →
      0 = LittleEndian.value (LittleEndian.slot 8 block i) % 256 ^ slotWidth i := fun i hi => by
    have hwidth : slotWidth i = 0 := by
      unfold slotWidth
      split_ifs <;> omega
    rw [hwidth, pow_zero, Nat.mod_one]
  simp only [Context.slots, blockToContext, toNat_getSlot,
    toNat_setWidth_getSlot hdword (by decide), toNat_setWidth_getSlot hword (by decide)]
  rw [kNumSlots, List.range_succ, List.range_succ, List.map_append, List.map_append,
    List.map_singleton, List.map_singleton, ← hreserved 30 le_rfl, ← hreserved 31 (by decide)]
  rfl

/-- A block comes back from its context, up to what the context has no place for. -/
theorem contextToBlock_blockToContext {block : Bytes} (h : block.length = kRegBlockSize)
    (c₀ : Context) : contextToBlock (blockToContext block c₀) = reducedBlock block := by
  rw [contextToBlock, slots_blockToContext, reducedBlock,
    LittleEndian.lowBytes_eq_block (fun i _ => slotWidth_le i) h]

/-- A context comes back from its block with all registers that the block carries,
and a block from its context with all bytes that the context holds. -/
theorem context_roundTrips :
    (∀ c c₀ : Context, blockToContext (contextToBlock c) c₀ = { c with rest := c₀.rest }) ∧
      ∀ (block : Bytes) (c₀ : Context), block.length = kRegBlockSize →
        contextToBlock (blockToContext block c₀) = reducedBlock block :=
  ⟨blockToContext_contextToBlock, fun _ c₀ h => contextToBlock_blockToContext h c₀⟩

theorem context_roundTrips_ones :
    (List.replicate kRegBlockSize (255 : BitVec 8)).length = kRegBlockSize ∧
      contextToBlock (blockToContext (List.replicate kRegBlockSize 255) {}) =
        reducedBlock (List.replicate kRegBlockSize 255) :=
  ⟨List.length_replicate, context_roundTrips.2 _ {} List.length_replicate⟩

/-- The contexts have the same values in all registers that the block carries. -/
def Context.SameRegisters (c c' : Context) : Prop :=
  { c with rest := [] } = { c' with rest := [] }

instance (c c' : Context) : Decidable (c.SameRegisters c') :=
  inferInstanceAs (Decidable (_ = _))

/-- The block tells apart any two values of a register. -/
theorem contextToBlock_inj {c c' : Context} :
    contextToBlock c = contextToBlock c' ↔ c.SameRegisters c' := by
  constructor
  · intro h
    have hback := congrArg (blockToContext · { rest := [] }) h
    rwa [blockToContext_contextToBlock, blockToContext_contextToBlock] at hback
  · exact congrArg contextToBlock

end Irida.Host
