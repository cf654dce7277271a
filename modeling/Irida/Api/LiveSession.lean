import Irida.Analysis.Canonical
import Irida.Api.OperandTarget
import Irida.Target.Serves
import Mathlib.Data.List.TakeWhile

/-!
# The live session

The two consumers of guest memory in `capi_target.cpp`: the reader that
`run_analysis` hands to the analyzer, and `core_disasm`.

Both ask `read_memory` for more than they need, and `read_memory` fails as a
whole if one page of the request is not mapped.  So near the end of a mapped
region the reader returns nothing where its contract asks for the bytes up to the
end, and the disassembly loses the rows that could be decoded.
`liveReads_iff` says for which requests this does not happen.
-/

namespace Irida.Api

open Disasm Analysis Target

/-- `kMaxInsnBytes`. -/
def kMaxInsnBytes : U64 := 15

/-- One byte of `format_bytes`, in upper case. -/
def formatByte (b : Byte) : String :=
  let digits := "0123456789ABCDEF".toList
  String.ofList [digits.getD (b.toNat / 16) '0', digits.getD (b.toNat % 16) '0']

/-- `format_bytes`. -/
def formatBytes (bytes : Bytes) : String :=
  String.intercalate " " (bytes.map formatByte)

/-- `IridaInsnRow`. -/
structure InsnRow where
  addr : U64
  text : String
  annot : Option String
  bytes : String
  deriving DecidableEq, Repr

section

variable {β : Type*} (ops : Backend β)

/-- The `ByteReader` of `run_analysis`. -/
def analysisReader (addr : U64) (size : ℕ) (t : Target β) : Bytes × Target β :=
  match t.readMemory ops addr (BitVec.ofNat 64 size) with
  | (.error _, t) => ([], t)
  | (.ok bytes, t) => (bytes.take size, t)

/-- The row of an instruction. -/
def insnRow (resolveSymbol : U64 → Option String) (bytes : Bytes) (addr : U64)
    (insn : Instruction) : InsnRow :=
  { addr := insn.address
    text := insn.text
    annot := (operandTarget insn).bind resolveSymbol
    bytes := formatBytes ((bytes.drop (insn.address - addr).toNat).take insn.length.toNat) }

/-- `core_disasm`. -/
def coreDisasm (disasm : Disassembler) (resolveSymbol : U64 → Option String) (addr count : U64)
    (t : Target β) : List InsnRow × Target β :=
  if count = 0 then ([], t)
  else
    match t.readMemory ops addr (count * kMaxInsnBytes) with
    | (.error _, t) => ([], t)
    | (.ok bytes, t) =>
      ((disasm.decodeLinear count.toNat bytes addr).map (insnRow resolveSymbol bytes addr), t)

end

/-- The number of mapped addresses from an address on, up to the first page that
is not mapped. -/
def mappedCount (mapped : U64 → Bool) (addr : U64) (n : ℕ) : ℕ :=
  ((List.range n).takeWhile fun i => mapped (pageAddr (addr + BitVec.ofNat 64 i))).length

/-- A decoder that reads no byte beyond the instruction it returns. -/
structure ReadsOwnBytes (disasm : Disassembler) : Prop where
  extend : ∀ {bytes pc insn} (more : Bytes), disasm.decodeOne bytes pc = .ok insn →
    disasm.decodeOne (bytes ++ more) pc = .ok insn
  own : ∀ {bytes pc insn}, disasm.decodeOne bytes pc = .ok insn →
    disasm.decodeOne (bytes.take insn.length.toNat) pc = .ok insn

/-- A row for the instruction at an address: the first one. -/
def HasRow (rows : List InsnRow) (insn : Instruction) : Prop :=
  ∃ row, rows.head? = some row ∧ row.addr = insn.address ∧ row.text = insn.text

section

variable {β : Type*} {ops : Backend β} {Live : β → Prop} {mem : U64 → Byte} {mapped : U64 → Bool}
  {t : Target β}

theorem mappedCount_of_allMapped {addr : U64} {n : ℕ} (h : AllMapped mapped addr n) :
    mappedCount mapped addr n = n := by
  rw [mappedCount, List.takeWhile_eq_self_iff.mpr, List.length_range]
  intro i hi
  exact h i (List.mem_range.mp hi)

theorem mappedCount_pos {addr : U64} {n : ℕ} (hn : 0 < n) (h : mapped (pageAddr addr) = true) :
    0 < mappedCount mapped addr n := by
  obtain ⟨n, rfl⟩ : ∃ k, n = k + 1 := ⟨n - 1, by omega⟩
  have hfirst : mapped (pageAddr (addr + BitVec.ofNat 64 0)) = true := by
    rwa [show addr + BitVec.ofNat 64 0 = addr from add_zero addr]
  rw [mappedCount, List.range_succ_eq_map, List.takeWhile_cons, if_pos hfirst]
  exact Nat.succ_pos _

/-- What the reader returns at a stop: the whole window, or nothing. -/
theorem analysisReader_cases (hserves : Serves ops Live mem mapped) (hstop : AtStop ops Live t)
    (addr : U64) {size : ℕ} (hsize : size < 2 ^ 64) :
    AllMapped mapped addr size ∧ (analysisReader ops addr size t).1 = guestBytes mem addr size ∨
      ¬ AllMapped mapped addr size ∧ (analysisReader ops addr size t).1 = [] := by
  have hlen : (BitVec.ofNat 64 size).toNat = size := by
    rw [BitVec.toNat_ofNat]
    exact Nat.mod_eq_of_lt hsize
  have hread := hstop.readMemory_fst hserves addr (BitVec.ofNat 64 size)
  rw [hlen] at hread
  unfold analysisReader
  cases hres : t.readMemory ops addr (BitVec.ofNat 64 size) with
  | mk r t' =>
      rw [hres] at hread
      rcases hread with ⟨hall, rfl : r = _⟩ | ⟨hnot, e, rfl : r = _⟩
      · refine Or.inl ⟨hall, ?_⟩
        dsimp only
        rw [take_guestBytes, min_self]
      · exact Or.inr ⟨hnot, rfl⟩

/-- The reader keeps its contract exactly if the whole window is mapped. -/
theorem analysisReader_iff (hserves : Serves ops Live mem mapped) (hstop : AtStop ops Live t)
    {addr : U64} (hmapped : mapped (pageAddr addr) = true) {size : ℕ} (hpos : 0 < size)
    (hsize : size < 2 ^ 64) :
    (analysisReader ops addr size t).1 = guestBytes mem addr (mappedCount mapped addr size) ↔
      AllMapped mapped addr size := by
  rcases analysisReader_cases hserves hstop addr hsize with ⟨hall, hread⟩ | ⟨hnot, hread⟩
  · rw [hread, mappedCount_of_allMapped hall]
    exact iff_of_true rfl hall
  · rw [hread]
    -- nothing is returned, although the byte at the address is mapped
    refine iff_of_false (fun heq => ?_) hnot
    have hcount := congrArg List.length heq
    rw [length_guestBytes, List.length_nil] at hcount
    exact absurd hcount.symm (mappedCount_pos hpos hmapped).ne'

/-- What decodes from some of the mapped bytes decodes from a shorter or longer
run of them exactly if the run holds the instruction. -/
theorem decodeOne_guestBytes {disasm : Disassembler} (hlawful : disasm.Lawful)
    (hown : ReadsOwnBytes disasm) {addr : U64} {n : ℕ} {insn : Instruction}
    (h : disasm.decodeOne (guestBytes mem addr n) addr = .ok insn) (len : ℕ) :
    (insn.length.toNat ≤ len → disasm.decodeOne (guestBytes mem addr len) addr = .ok insn) ∧
      (len < insn.length.toNat →
        ∃ e, disasm.decodeOne (guestBytes mem addr len) addr = .error e) := by
  have hn : insn.length.toNat ≤ n := by simpa using hlawful.length_le h
  have hsplit : ∀ {k m : ℕ}, k ≤ m →
      guestBytes mem addr m = guestBytes mem addr k ++ (guestBytes mem addr m).drop k := by
    intro k m hkm
    conv_lhs => rw [← List.take_append_drop k (guestBytes mem addr m)]
    rw [take_guestBytes, min_eq_left hkm]
  constructor
  · intro hlen
    have hfirst := hown.own h
    rw [take_guestBytes, min_eq_left hn] at hfirst
    rw [hsplit hlen]
    exact hown.extend _ hfirst
  · intro hlen
    cases hdec : disasm.decodeOne (guestBytes mem addr len) addr with
    | error e => exact ⟨e, rfl⟩
    | ok other =>
        -- it would be the same instruction, which does not fit
        have hother : disasm.decodeOne (guestBytes mem addr n) addr = .ok other := by
          rw [hsplit (show len ≤ n by omega)]
          exact hown.extend _ hdec
        rw [h] at hother
        cases hother
        have hle := hlawful.length_le hdec
        rw [length_guestBytes] at hle
        omega

/-- The disassembly has a row for the instruction exactly if the bytes requested
are all mapped and hold the instruction. -/
theorem coreDisasm_hasRow_iff {disasm : Disassembler} (hlawful : disasm.Lawful)
    (hown : ReadsOwnBytes disasm) (resolveSymbol : U64 → Option String)
    (hserves : Serves ops Live mem mapped) (hstop : AtStop ops Live t) {addr count : U64}
    (hcount : count ≠ 0) {n : ℕ} {insn : Instruction}
    (h : disasm.decodeOne (guestBytes mem addr n) addr = .ok insn) :
    HasRow (coreDisasm ops disasm resolveSymbol addr count t).1 insn ↔
      AllMapped mapped addr (count * kMaxInsnBytes).toNat ∧
        insn.length.toNat ≤ (count * kMaxInsnBytes).toNat := by
  obtain ⟨max, hmax⟩ : ∃ max, count.toNat = max + 1 := by
    have hpos := BitVec.toNat_pos_of_ne_zero hcount
    exact ⟨count.toNat - 1, by omega⟩
  obtain ⟨hfits, hshort⟩ :=
    decodeOne_guestBytes hlawful hown h (count * kMaxInsnBytes).toNat
  unfold coreDisasm
  rw [if_neg hcount]
  cases hres : t.readMemory ops addr (count * kMaxInsnBytes) with
  | mk r t' =>
      have hread := hstop.readMemory_fst hserves addr (count * kMaxInsnBytes)
      rw [hres] at hread
      rcases hread with ⟨hall, rfl : r = _⟩ | ⟨hnot, e, rfl : r = _⟩
      · -- the first row depends on whether the instruction fits
        dsimp only
        rw [hmax, Disassembler.decodeLinear, length_guestBytes]
        have hpos := hlawful.length_pos h
        by_cases hlen : insn.length.toNat ≤ (count * kMaxInsnBytes).toNat
        · rw [if_neg (by omega), hfits hlen]
          exact iff_of_true ⟨_, rfl, rfl, rfl⟩ ⟨hall, hlen⟩
        · refine iff_of_false ?_ (fun hboth => hlen hboth.2)
          obtain ⟨e, herr⟩ := hshort (by omega)
          rw [herr]
          rintro ⟨row, hrow, -⟩
          split at hrow <;> cases hrow
      · -- the request has failed as a whole
        refine iff_of_false ?_ (fun hboth => hnot hboth.1)
        rintro ⟨row, hrow, -⟩
        cases hrow

/-- **When the live reads serve what is mapped.**  The reader of the analysis
keeps its contract exactly if its whole window is mapped, and the disassembly has
a row for an instruction that decodes from mapped bytes exactly if the bytes for
all of the rows are mapped and enough for the instruction. -/
theorem liveReads_iff {disasm : Disassembler} (hlawful : disasm.Lawful)
    (hown : ReadsOwnBytes disasm) (resolveSymbol : U64 → Option String)
    (hserves : Serves ops Live mem mapped) (hstop : AtStop ops Live t) {addr : U64}
    (hmapped : mapped (pageAddr addr) = true) :
    ((analysisReader ops addr kReadWindow t).1 =
        guestBytes mem addr (mappedCount mapped addr kReadWindow) ↔
      AllMapped mapped addr kReadWindow) ∧
    ∀ count, count ≠ 0 → ∀ n insn, AllMapped mapped addr n →
      disasm.decodeOne (guestBytes mem addr n) addr = .ok insn →
      (HasRow (coreDisasm ops disasm resolveSymbol addr count t).1 insn ↔
        AllMapped mapped addr (count * kMaxInsnBytes).toNat ∧
          insn.length.toNat ≤ (count * kMaxInsnBytes).toNat) :=
  ⟨analysisReader_iff hserves hstop hmapped (by decide) (by decide),
    fun _ hcount _ _ _ h =>
      coreDisasm_hasRow_iff hlawful hown resolveSymbol hserves hstop hcount h⟩

end

/-! ## The last byte of a mapped page -/

/-- One mapped page, filled with `ret`. -/
def onePageMapped (page : U64) : Bool :=
  page = 0x1000

/-- A backend that serves that page. -/
def onePageOps : Backend Unit where
  cont _ := (.ok {}, ())
  step _ := (.ok {}, ())
  readRegisters _ := (.ok [], ())
  readMemory addr len _ :=
    (if onePageMapped addr then .ok (guestBytes (fun _ => 0xC3) addr len.toNat)
      else .error "read_memory: target error E1", ())

private theorem onePage_serves :
    Serves onePageOps (fun _ => True) (fun _ => 0xC3) onePageMapped where
  served _ _ hmapped := ⟨(), trivial, by simp [onePageOps, hmapped]⟩
  refused _ _ hmapped := ⟨_, (), trivial, by simp only [onePageOps, hmapped]; rfl⟩

/-- The target that `attach` returns. -/
def onePageTarget : Target Unit :=
  { backend := (), cache := MemoryCache.setEpoch {} 1, epoch := 1, state := { epoch := 1 } }

private theorem onePageTarget_atStop : AtStop onePageOps (fun _ => True) onePageTarget :=
  .attach (b := ()) rfl trivial

private theorem smallDecoder_readsOwnBytes : ReadsOwnBytes smallDecoder where
  extend {bytes _ _} more h := by
    cases bytes with
    | nil => cases h
    | cons opcode rest =>
        rw [List.cons_append]
        simp only [smallDecoder] at h ⊢
        split at h <;> rename_i hnop
        · rw [if_pos hnop, h]
        · split at h <;> rename_i hret
          · rw [if_neg hnop, if_pos hret, h]
          · cases rest with
            | nil => cases h
            | cons disp rest => rw [if_neg hnop, if_neg hret, List.cons_append, ← h]
  own {bytes _ _} h := by
    cases bytes with
    | nil => cases h
    | cons opcode rest =>
        simp only [smallDecoder] at h ⊢
        split at h <;> rename_i hnop
        · cases h
          simp [hnop]
        · split at h <;> rename_i hret
          · cases h
            simp [hret]
          · cases rest with
            | nil => cases h
            | cons disp rest =>
                dsimp only at h
                split at h <;> rename_i hjmp
                · cases h
                  simp [hjmp]
                · split at h <;> rename_i hjne
                  · cases h
                    simp [hjne]
                  · split at h <;> rename_i hcall
                    · cases h
                      simp [hcall]
                    · cases h

theorem liveReads_iff_onePage :
    ((analysisReader onePageOps 0x1FFF kReadWindow onePageTarget).1 =
        guestBytes (fun _ => 0xC3) 0x1FFF (mappedCount onePageMapped 0x1FFF kReadWindow) ↔
      AllMapped onePageMapped 0x1FFF kReadWindow) ∧
    ∀ count, count ≠ 0 → ∀ n insn, AllMapped onePageMapped 0x1FFF n →
      smallDecoder.decodeOne (guestBytes (fun _ => 0xC3) 0x1FFF n) 0x1FFF = .ok insn →
      (HasRow (coreDisasm onePageOps smallDecoder (fun _ => none) 0x1FFF count onePageTarget).1
          insn ↔
        AllMapped onePageMapped 0x1FFF (count * kMaxInsnBytes).toNat ∧
          insn.length.toNat ≤ (count * kMaxInsnBytes).toNat) :=
  liveReads_iff smallDecoder_lawful smallDecoder_readsOwnBytes (fun _ => none) onePage_serves
    onePageTarget_atStop (by decide)

/-- At the last byte of the page, a `ret`, the reader returns nothing and the
disassembly has no row. -/
theorem liveReads_onePage :
    Serves onePageOps (fun _ => True) (fun _ => 0xC3) onePageMapped ∧
    AtStop onePageOps (fun _ => True) onePageTarget ∧
    onePageMapped (pageAddr 0x1FFF) = true ∧
    (analysisReader onePageOps 0x1FFF kReadWindow onePageTarget).1 ≠
      guestBytes (fun _ => 0xC3) 0x1FFF (mappedCount onePageMapped 0x1FFF kReadWindow) ∧
    ∃ insn, AllMapped onePageMapped 0x1FFF 1 ∧
      smallDecoder.decodeOne (guestBytes (fun _ => 0xC3) 0x1FFF 1) 0x1FFF = .ok insn ∧
      ¬ HasRow (coreDisasm onePageOps smallDecoder (fun _ => none) 0x1FFF 1 onePageTarget).1
        insn := by
  have hnext : onePageMapped (pageAddr (0x1FFF + BitVec.ofNat 64 1)) = false := by decide
  have hret : smallDecoder.decodeOne (guestBytes (fun _ => 0xC3) 0x1FFF 1) 0x1FFF =
      .ok { address := 0x1FFF, length := 1, flow := .ret } := by
    unfold guestBytes
    rfl
  refine ⟨onePage_serves, onePageTarget_atStop, by decide, ?_, _, ?_, hret, ?_⟩
  · rw [Ne, analysisReader_iff onePage_serves onePageTarget_atStop (by decide) (by decide)
      (by decide)]
    intro hall
    rw [hall 1 (by decide)] at hnext
    cases hnext
  · intro i hi
    obtain rfl : i = 0 := by omega
    decide
  · rw [coreDisasm_hasRow_iff smallDecoder_lawful smallDecoder_readsOwnBytes _ onePage_serves
      onePageTarget_atStop (by decide) hret]
    rintro ⟨hall, -⟩
    rw [hall 1 (by decide)] at hnext
    cases hnext

end Irida.Api
