import Irida.Api.Seeds

/-!
# Static disassembly

`static_disasm` of `capi_static.cpp` fetches 15 bytes for each row that is asked for and decodes
them one after the other.  Fifteen bytes are enough for every row, so that asking for more rows only
adds rows at the end: `staticDisasm_take`.
-/

namespace Irida

namespace Disasm

open Api

/-- What the decoder is assumed to do: it looks at no more than the longest possible instruction
takes, and returns one that is not longer than that or than what it was given. -/
structure Disassembler.Windowed (disasm : Disassembler) : Prop extends disasm.Lawful where
  window : ∀ bytes pc,
    disasm.decodeOne bytes pc = disasm.decodeOne (bytes.take kMaxInsnBytes.toNat) pc
  length_le_max : ∀ {bytes pc insn}, disasm.decodeOne bytes pc = .ok insn →
    insn.length.toNat ≤ kMaxInsnBytes.toNat

theorem toNat_kMaxInsnBytes : kMaxInsnBytes.toNat = 15 :=
  rfl

namespace Disassembler

variable {disasm : Disassembler}

theorem decodeLinear_succ (disasm : Disassembler) (max : ℕ) (bytes : Bytes) (address : U64) :
    disasm.decodeLinear (max + 1) bytes address =
      if bytes.length = 0 then []
      else
        match disasm.decodeOne bytes address with
        | .error _ => []
        | .ok insn =>
          insn :: disasm.decodeLinear max (bytes.drop insn.length.toNat)
            (address + insn.length.setWidth 64) :=
  rfl

/-- Fifteen bytes for each instruction are enough for the first `k` of them. -/
theorem decodeLinear_take (h : disasm.Windowed) {k k' len : ℕ} (hk : k ≤ k')
    (hlen : 15 * k ≤ len) (bytes : Bytes) (address : U64) :
    disasm.decodeLinear k (bytes.take len) address =
      (disasm.decodeLinear k' bytes address).take k := by
  induction k generalizing k' len bytes address with
  | zero => rw [decodeLinear, List.take_zero]
  | succ k ih =>
      obtain ⟨k', rfl⟩ : ∃ n, k' = n + 1 := ⟨k' - 1, by omega⟩
      have hempty : (bytes.take len).length = 0 ↔ bytes.length = 0 := by
        rw [List.length_take]
        omega
      -- both buffers begin with the same fifteen bytes
      have hfirst : disasm.decodeOne (bytes.take len) address = disasm.decodeOne bytes address := by
        rw [h.window, h.window bytes, List.take_take, toNat_kMaxInsnBytes, min_eq_left (by omega)]
      rw [decodeLinear_succ, decodeLinear_succ, hfirst]
      by_cases hnil : bytes.length = 0
      · rw [if_pos (hempty.mpr hnil), if_pos hnil, List.take_nil]
      · rw [if_neg (mt hempty.mp hnil), if_neg hnil]
        cases hdec : disasm.decodeOne bytes address with
        | error e => rfl
        | ok insn =>
            have hmax : insn.length.toNat ≤ 15 := h.length_le_max hdec
            dsimp only
            rw [List.take_succ_cons, List.drop_take, ih (Nat.le_of_succ_le_succ hk) (by omega)]

/-- Where an instruction lies in the buffer, and how far into it the ones before it can reach. -/
theorem mem_decodeLinear (h : disasm.Windowed) {max : ℕ} {bytes : Bytes} {address : U64}
    {insn : Instruction} (hmem : insn ∈ disasm.decodeLinear max bytes address) :
    ∃ offset, insn.address = address + BitVec.ofNat 64 offset ∧
      0 < insn.length.toNat ∧ offset + insn.length.toNat ≤ bytes.length ∧
        offset + insn.length.toNat ≤ 15 * max := by
  induction max generalizing bytes address with
  | zero => cases hmem
  | succ max ih =>
      rw [decodeLinear_succ] at hmem
      split at hmem
      · cases hmem
      · split at hmem
        · cases hmem
        · next first hdec =>
            have hle := h.length_le hdec
            have hmax : first.length.toNat ≤ 15 := h.length_le_max hdec
            rcases List.mem_cons.mp hmem with rfl | hrest
            · refine ⟨0, ?_, h.length_pos hdec, by omega, by omega⟩
              rw [h.address_eq hdec]
              exact (add_zero address).symm
            · obtain ⟨offset, haddr, hpos, hin, hfar⟩ := ih hrest
              rw [List.length_drop] at hin
              refine ⟨first.length.toNat + offset, ?_, hpos, by omega, by omega⟩
              rw [haddr, BitVec.ofNat_add, BitVec.add_assoc, BitVec.ofNat_toNat]

/-- The instructions follow one another, the first one at the address. -/
theorem decodeLinear_isChain (h : disasm.Windowed) (max : ℕ) (bytes : Bytes) (address : U64) :
    (∀ first ∈ (disasm.decodeLinear max bytes address).head?, first.address = address) ∧
      (disasm.decodeLinear max bytes address).IsChain
        fun insn insn' => insn'.address = insn.next := by
  induction max generalizing bytes address with
  | zero => simp [decodeLinear]
  | succ max ih =>
      rw [decodeLinear_succ]
      split
      · simp
      · split
        · simp
        · next first hdec =>
            have haddr := h.address_eq hdec
            obtain ⟨hhead, hchain⟩ := ih (bytes.drop first.length.toNat)
              (address + first.length.setWidth 64)
            refine ⟨by simp [haddr], List.isChain_cons.mpr ⟨fun insn' hinsn' => ?_, hchain⟩⟩
            rw [hhead insn' hinsn', Instruction.next, haddr]

end Disassembler

end Disasm

namespace Api

open Analysis Disasm

/-! ## Reads of different lengths -/

theorem copySource_map (image : Bytes) (vaddr : U64) {n n' : ℕ} (h : n ≤ n')
    (sections : List Binfmt.Section) :
    copySource image vaddr n sections =
      (copySource image vaddr n' sections).map fun source => (source.1, min n source.2) := by
  induction sections with
  | nil => rfl
  | cons sec rest ih =>
      rw [copySource, copySource]
      split
      · exact ih
      · dsimp only
        split
        · rfl
        · split
          · rfl
          · rw [Option.map_some]
            congr 2
            omega

theorem StaticCtx.readAt_take (ctx : StaticCtx) (vaddr : U64) {n n' : ℕ} (h : n ≤ n') :
    ctx.readAt vaddr n = (ctx.readAt vaddr n').take n := by
  rw [readAt, readAt, copySource_map ctx.image vaddr h]
  cases copySource ctx.image vaddr n' ctx.bin.sections with
  | none => simp
  | some source =>
      rw [Option.map_some, List.take_take]

/-! ## The rows -/

theorem length_formatByte (b : Byte) : (formatByte b).length = 2 := by
  rw [formatByte, String.length_ofList]
  rfl

/-- The text of some bytes is two digits for each, and a space between them. -/
theorem length_formatBytes {bytes : Bytes} (h : bytes ≠ []) :
    (formatBytes bytes).length + 1 = 3 * bytes.length := by
  unfold formatBytes
  induction bytes with
  | nil => exact absurd rfl h
  | cons b bytes ih =>
      cases bytes with
      | nil => rw [List.map_singleton, String.intercalate_singleton, length_formatByte]; rfl
      | cons b' bytes =>
          have ih := ih (List.cons_ne_nil _ _)
          rw [List.map_cons] at ih
          rw [List.map_cons, List.map_cons, String.intercalate_cons_cons, String.length_append,
            String.length_append, length_formatByte, List.length_cons]
          have hspace : " ".length = 1 := rfl
          omega

namespace InsnRow

/-- The number of bytes that a row shows. -/
def byteCount (row : InsnRow) : ℕ :=
  (row.bytes.length + 1) / 3

/-- The address where the bytes of a row end. -/
def next (row : InsnRow) : U64 :=
  row.addr + BitVec.ofNat 64 row.byteCount

end InsnRow

section

variable {resolveSymbol : U64 → Option String} {bytes : Bytes} {addr : U64} {insn : Instruction}
  {offset : ℕ}

theorem toNat_sub_of_offset (haddr : insn.address = addr + BitVec.ofNat 64 offset)
    (hlt : offset < 2 ^ 64) : (insn.address - addr).toNat = offset := by
  rw [haddr, add_sub_cancel_left, BitVec.toNat_ofNat, Nat.mod_eq_of_lt hlt]

theorem insnRow_take (haddr : insn.address = addr + BitVec.ofNat 64 offset) (hlt : offset < 2 ^ 64)
    {len : ℕ} (hlen : offset + insn.length.toNat ≤ len) :
    insnRow resolveSymbol (bytes.take len) addr insn = insnRow resolveSymbol bytes addr insn := by
  unfold insnRow
  rw [toNat_sub_of_offset haddr hlt, List.drop_take, List.take_take, min_eq_left (by omega)]

theorem byteCount_insnRow (haddr : insn.address = addr + BitVec.ofNat 64 offset)
    (hlt : offset < 2 ^ 64) (hin : offset + insn.length.toNat ≤ bytes.length)
    (hpos : 0 < insn.length.toNat) :
    (insnRow resolveSymbol bytes addr insn).byteCount = insn.length.toNat := by
  have hlen : ((bytes.drop offset).take insn.length.toNat).length = insn.length.toNat := by
    rw [List.length_take, List.length_drop]
    omega
  have htext := length_formatBytes (List.ne_nil_of_length_pos (hpos.trans_eq hlen.symm))
  rw [InsnRow.byteCount, insnRow, toNat_sub_of_offset haddr hlt]
  dsimp only
  rw [hlen] at htext
  omega

end

namespace LoadedCtx

variable (ctx : LoadedCtx) (disasm : Disassembler) (addr : U64)

/-- The bytes that `static_disasm` fetches. -/
def disasmBuf (count : U64) : Bytes :=
  ctx.static.readAt addr (count * kMaxInsnBytes).toNat

/-- `static_disasm`. -/
def staticDisasm (count : U64) : List InsnRow :=
  if count = 0 then []
  else
    let buf := ctx.disasmBuf addr count
    if buf = [] then []
    else
      (disasm.decodeLinear count.toNat buf addr).map (insnRow ctx.resolveSymbol buf addr)

/-- Neither guard of `static_disasm` changes what it gives. -/
theorem staticDisasm_eq (count : U64) :
    ctx.staticDisasm disasm addr count =
      (disasm.decodeLinear count.toNat (ctx.disasmBuf addr count) addr).map
        (insnRow ctx.resolveSymbol (ctx.disasmBuf addr count) addr) := by
  unfold staticDisasm
  split
  · next hzero =>
      rw [hzero]
      rfl
  · dsimp only
    split
    · next hnil =>
        rw [hnil]
        cases count.toNat <;> rfl
    · rfl

variable {disasm}

theorem toNat_mul_kMaxInsnBytes {count : U64} (h : 15 * count.toNat < 2 ^ 64) :
    (count * kMaxInsnBytes).toNat = 15 * count.toNat := by
  rw [BitVec.toNat_mul, toNat_kMaxInsnBytes, Nat.mul_comm, Nat.mod_eq_of_lt h]

theorem disasmBuf_take {k k' : U64} (hk : k ≤ k') (hfits : 15 * k'.toNat < 2 ^ 64) :
    ctx.disasmBuf addr k = (ctx.disasmBuf addr k').take (15 * k.toNat) := by
  have hle : k.toNat ≤ k'.toNat := hk
  rw [disasmBuf, disasmBuf, toNat_mul_kMaxInsnBytes hfits, toNat_mul_kMaxInsnBytes (by omega)]
  exact ctx.static.readAt_take addr (by omega)

/-- More rows begin with the rows of fewer. -/
theorem staticDisasm_take (h : disasm.Windowed) {k k' : U64} (hk : k ≤ k')
    (hfits : 15 * k'.toNat < 2 ^ 64) :
    ctx.staticDisasm disasm addr k = (ctx.staticDisasm disasm addr k').take k.toNat := by
  have hle : k.toNat ≤ k'.toNat := hk
  rw [staticDisasm_eq, staticDisasm_eq, ← List.map_take,
    ← Disassembler.decodeLinear_take h hle (Nat.le_refl (15 * k.toNat)),
    ctx.disasmBuf_take addr hk hfits]
  apply List.map_congr_left
  intro insn hinsn
  obtain ⟨offset, haddr, -, -, hfar⟩ := Disassembler.mem_decodeLinear h hinsn
  exact insnRow_take haddr (by omega) hfar

/-- The rows follow one another, the first one at the address. -/
theorem staticDisasm_isChain (h : disasm.Windowed) {k : U64} (hfits : 15 * k.toNat < 2 ^ 64) :
    (∀ row ∈ (ctx.staticDisasm disasm addr k).head?, row.addr = addr) ∧
      (ctx.staticDisasm disasm addr k).IsChain fun row row' => row'.addr = row.next := by
  obtain ⟨hhead, hchain⟩ :=
    Disassembler.decodeLinear_isChain h k.toNat (ctx.disasmBuf addr k) addr
  rw [staticDisasm_eq]
  constructor
  · intro row hrow
    rw [List.head?_map, Option.mem_map] at hrow
    obtain ⟨first, hfirst, rfl⟩ := hrow
    exact hhead first hfirst
  · rw [List.isChain_map]
    refine hchain.imp_of_mem_imp fun insn insn' hinsn _ hnext => ?_
    obtain ⟨offset, haddr, hpos, hin, hfar⟩ := Disassembler.mem_decodeLinear h hinsn
    rw [InsnRow.next, byteCount_insnRow haddr (by omega) hin hpos, BitVec.ofNat_toNat]
    exact hnext

/-- **Rows do not depend on how many are asked for.**  The rows of a shorter disassembly are the
first rows of a longer one, and the rows tile the memory from the address on. -/
theorem staticDisasm_prefixes (h : disasm.Windowed) {k k' : U64} (hk : k ≤ k')
    (hfits : 15 * k'.toNat < 2 ^ 64) :
    ctx.staticDisasm disasm addr k = (ctx.staticDisasm disasm addr k').take
        (min k.toNat (ctx.staticDisasm disasm addr k').length) ∧
      (∀ row ∈ (ctx.staticDisasm disasm addr k').head?, row.addr = addr) ∧
      (ctx.staticDisasm disasm addr k').IsChain fun row row' => row'.addr = row.next := by
  refine ⟨?_, ctx.staticDisasm_isChain addr h hfits⟩
  rw [← List.take_eq_take_min]
  exact ctx.staticDisasm_take addr h hk hfits

end LoadedCtx

theorem smallDecoder_windowed : smallDecoder.Windowed where
  toLawful := smallDecoder_lawful
  window bytes pc := by
    rcases bytes with _ | ⟨opcode, _ | ⟨disp, rest⟩⟩ <;> rfl
  length_le_max h := (smallDecoder_decodeOne h).2.2.2.trans (by decide)

/-- A file with a `nop` and a `ret`. -/
def nopRetCtx : LoadedCtx where
  bin := ⟨⟨0x1000, [⟨0x1000, 2, 0, 2⟩]⟩, 0x1000, [], [], []⟩
  image := [0x90, 0xC3]
  length_lt := by decide
  symbolMap := ∅

/-- Its first row, out of three that are asked for. -/
theorem staticDisasm_prefixes_nopRet :
    nopRetCtx.staticDisasm smallDecoder 0x1000 1 =
        (nopRetCtx.staticDisasm smallDecoder 0x1000 3).take
          (min 1 (nopRetCtx.staticDisasm smallDecoder 0x1000 3).length) ∧
      (∀ row ∈ (nopRetCtx.staticDisasm smallDecoder 0x1000 3).head?, row.addr = 0x1000) ∧
      (nopRetCtx.staticDisasm smallDecoder 0x1000 3).IsChain
        fun row row' => row'.addr = row.next :=
  nopRetCtx.staticDisasm_prefixes 0x1000 smallDecoder_windowed (by decide) (by decide)

end Api

end Irida
