import Irida.Api.SectionReads
import Irida.Gui.Navigation

/-!
# The rows of a block

The analyzer reads a window for each instruction, `buildBlocks` decodes all instructions of a block
from one read at its start.  The bytes are the same as long as both reads are served by one section
(`window_eq`), and the read of `buildBlocks` has fifteen bytes for each of the instructions that it
asks for.  So the rows are those of the block up to where the next section takes over, and at most
`kMaxBlockInsns` of them: `keptRows_eq`.

The section of the block is assumed to be in place (`InPlace`): no other section serves an address
of its raw data.  The raw data may be longer than the memory of the section, as the padding to the
alignment of the file makes it, if it ends before the next section (`inPlace_of_separate`).
-/

namespace Irida

namespace Analysis

open Disasm

/-- The instructions follow one another from the address on. -/
def Follows (fetch : U64 → Option Instruction) : U64 → List Instruction → Prop
  | _, [] => True
  | pc, insn :: rest => fetch pc = some insn ∧ Follows fetch insn.next rest

theorem Chain.follows {fetch : U64 → Option Instruction} {a : U64} {insns : List Instruction}
    {exit : Exit} (h : Chain fetch a insns exit) : Follows fetch a insns := by
  induction h with
  | dead _ | cut => trivial
  | jump hfetch _ | condJump hfetch _ | ret hfetch _ => exact ⟨hfetch, trivial⟩
  | more hfetch _ _ ih => exact ⟨hfetch, ih⟩

end Analysis

namespace Api

open Analysis Binfmt Disasm

namespace StaticCtx

/-- The raw data of the sections, laid out from their starts, stays in the address space. -/
def Fits (ctx : StaticCtx) : Prop :=
  ∀ sec ∈ ctx.bin.sections, sec.vaddr.toNat + sec.size.toNat < 2 ^ 64

/-- The raw data fits, and no other section serves an address of that of the section at the
address. -/
structure InPlace (ctx : StaticCtx) (addr : U64) : Prop where
  fits : ctx.Fits
  own : ∀ sec, ctx.sectionAt addr = some sec → ∀ (a : U64) (other : Section),
    a - sec.vaddr < sec.size → ctx.sectionAt a = some other → other = sec

variable {ctx : StaticCtx}

/-- Sections are in place if none of them reaches into the raw data of another one. -/
theorem inPlace_of_separate (hnowrap : ∀ sec ∈ ctx.bin.sections, sec.NoWrap) (hfits : ctx.Fits)
    (hseparate : ctx.bin.sections.Pairwise fun sec other =>
      sec.Misses other.vaddr.toNat other.size.toNat ∧
        other.Misses sec.vaddr.toNat sec.size.toNat) (addr : U64) : ctx.InPlace addr where
  fits := hfits
  own sec hserves a other hlt hother := by
    have hsec := mem_of_sectionAt hserves
    have hmem := mem_of_sectionAt hother
    have hcovers := (hnowrap other hmem).covers_iff.mp (covers_of_sectionAt hother)
    have hfit := hfits sec hsec
    rw [BitVec.lt_def, BitVec.toNat_sub] at hlt
    -- otherwise the other section would cover an address of the raw data
    by_contra hne
    have : Std.Symm fun sec other : Section => sec.Misses other.vaddr.toNat other.size.toNat ∧
        other.Misses sec.vaddr.toNat sec.size.toNat := ⟨fun _ _ => And.symm⟩
    have happart := (hseparate.forall hmem hsec hne).1
    rw [Section.Misses] at happart
    have := a.isLt
    omega

/-! ## One read and many -/

theorem toNat_add_sub {a base : U64} {offset : ℕ} (h : (a - base).toNat + offset < 2 ^ 64) :
    (a + BitVec.ofNat 64 offset - base).toNat = (a - base).toNat + offset := by
  have hmove : a + BitVec.ofNat 64 offset - base = (a - base) + BitVec.ofNat 64 offset := by grind
  rw [hmove, BitVec.toNat_add, BitVec.toNat_ofNat]
  omega

section Window

variable {addr pc : U64} {sec : Section} {offset n : ℕ}

theorem sectionAt_of_readAt_ne_nil (h : ctx.readAt addr n ≠ []) :
    ∃ sec, ctx.sectionAt addr = some sec ∧ addr - sec.vaddr < sec.size ∧
      (addr - sec.vaddr).toNat + (ctx.readAt addr n).length ≤ sec.size.toNat := by
  rcases ctx.readAt_bounds addr n with ⟨-, hnil⟩ | ⟨sec, _, m, hsec, -, -, -, -, hraw, -, hlen⟩
  · exact absurd hnil h
  · have hpos := List.length_pos_of_ne_nil h
    refine ⟨sec, hsec, BitVec.lt_def.mpr (by omega), by rwa [hlen]⟩

/-- How far the raw data and the file go that a read gets its bytes from. -/
theorem reach_of_readAt (hsec : ctx.sectionAt addr = some sec)
    (hwithin : addr - sec.vaddr < sec.size) (hoffset : offset ≤ (ctx.readAt addr n).length) :
    (addr - sec.vaddr).toNat + offset ≤ sec.size.toNat ∧
      (sec.offset + (addr - sec.vaddr)).toNat + offset ≤
        max ctx.image.length (sec.offset + (addr - sec.vaddr)).toNat := by
  rw [readAt_eq hsec hwithin, List.length_take, List.length_drop,
    BitVec.toNat_sub_of_le (BitVec.le_of_lt hwithin)] at hoffset
  rw [BitVec.lt_def] at hwithin
  omega

/-- The first bytes of the window at an address are those of a longer read that reaches it. -/
theorem window_eq (hsec : ctx.sectionAt addr = some sec) (hsec' : ctx.sectionAt pc = some sec)
    (hwithin : addr - sec.vaddr < sec.size) (hwithin' : pc - sec.vaddr < sec.size)
    (hpc : pc = addr + BitVec.ofNat 64 offset) (hoffset : offset ≤ (ctx.readAt addr n).length)
    (hn : offset + 15 ≤ n) :
    ((ctx.readAt addr n).drop offset).take 15 = (ctx.readAt pc kReadWindow).take 15 := by
  obtain ⟨hraw, hfile⟩ := reach_of_readAt hsec hwithin hoffset
  have hsub : (pc - sec.vaddr).toNat = (addr - sec.vaddr).toNat + offset := by
    rw [hpc]
    exact toNat_add_sub (by have := sec.size.isLt; omega)
  have hoff : (sec.offset + (pc - sec.vaddr)).toNat =
      (sec.offset + (addr - sec.vaddr)).toNat + offset := by
    have hmove : sec.offset + (pc - sec.vaddr) =
        sec.offset + (addr - sec.vaddr) + BitVec.ofNat 64 offset := by
      rw [hpc]
      grind
    have := ctx.length_lt
    rw [hmove, BitVec.toNat_add, BitVec.toNat_ofNat]
    omega
  rw [readAt_eq hsec hwithin, readAt_eq hsec' hwithin', List.drop_take, List.take_take,
    List.take_take, List.drop_drop, hoff, BitVec.toNat_sub_of_le (BitVec.le_of_lt hwithin),
    BitVec.toNat_sub_of_le (BitVec.le_of_lt hwithin'), hsub]
  congr 1
  have : kReadWindow = 256 := rfl
  omega

end Window

section Decode

variable {disasm : Disassembler}

/-- What is fetched lies in the raw data of the section that serves its address. -/
theorem sectionAt_of_fetch (hlawful : disasm.Lawful) {pc : U64} {insn : Instruction}
    (h : fetch disasm ctx.reader pc = some insn) :
    ∃ sec, ctx.sectionAt pc = some sec ∧ pc - sec.vaddr < sec.size ∧
      (pc - sec.vaddr).toNat + insn.length.toNat ≤ sec.size.toNat := by
  obtain ⟨hwindow, hdecode⟩ := decodeOne_of_fetch h
  have hne : ctx.readAt pc kReadWindow ≠ [] := fun hnil => hwindow (congrArg List.length hnil)
  obtain ⟨sec, hsec, hwithin, hraw⟩ := sectionAt_of_readAt_ne_nil hne
  have hlen : insn.length.toNat ≤ (ctx.readAt pc kReadWindow).length := hlawful.length_le hdecode
  exact ⟨sec, hsec, hwithin, by omega⟩

/-- Where the raw data fits, no instruction reaches the end of the address space. -/
theorem wellPlaced_of_fits (hlawful : disasm.Lawful) (hfits : ctx.Fits) :
    WellPlaced (fetch disasm ctx.reader) := by
  refine wellPlaced_fetch hlawful fun pc insn h => ?_
  obtain ⟨sec, hsec, -, hraw⟩ := sectionAt_of_fetch hlawful h
  have hlow : sec.vaddr ≤ pc := (covers_of_sectionAt hsec).1
  rw [BitVec.toNat_sub_of_le hlow] at hraw
  rw [BitVec.le_def] at hlow
  rw [hlawful.address_eq (decodeOne_of_fetch h).2]
  calc pc.toNat + insn.length.toNat ≤ sec.vaddr.toNat + sec.size.toNat := by omega
    _ < 2 ^ 64 := hfits sec (mem_of_sectionAt hsec)

/-! ## The rows up to the end of the block -/

variable {insns : List Instruction} {addr pc finish : U64} {sec : Section} {n : ℕ}

theorem takeWhile_decodeLinear_finish (hlawful : disasm.Lawful) (max : ℕ) (bytes : Bytes)
    (finish : U64) :
    (disasm.decodeLinear max bytes finish).takeWhile (fun insn => ¬ insn.address ≥ finish) =
      [] := by
  cases max with
  | zero => rfl
  | succ max =>
      rw [Disassembler.decodeLinear_succ]
      split
      · rfl
      · split
        · rfl
        · next insn hdec => exact List.takeWhile_cons_of_neg (by simp [hlawful.address_eq hdec])

/-- Where one section serves the start of a read and an instruction that the read reaches, the
instruction is decoded from the read. -/
theorem decodeOne_drop (hdec : disasm.Windowed) {offset : ℕ} {insn : Instruction}
    (hsec : ctx.sectionAt addr = some sec) (hwithin : addr - sec.vaddr < sec.size)
    (hsec' : ctx.sectionAt pc = some sec) (hfetch : fetch disasm ctx.reader pc = some insn)
    (hpc : pc = addr + BitVec.ofNat 64 offset) (hoffset : offset ≤ (ctx.readAt addr n).length)
    (hn : offset + 15 ≤ n) :
    ((ctx.readAt addr n).drop offset).length ≠ 0 ∧
      disasm.decodeOne ((ctx.readAt addr n).drop offset) pc = .ok insn := by
  obtain ⟨other, hother, hwithin', -⟩ := sectionAt_of_fetch hdec.toLawful hfetch
  obtain rfl := Option.some.inj (hsec'.symm.trans hother)
  obtain ⟨hwindow, hok⟩ := decodeOne_of_fetch hfetch
  have heq := window_eq hsec hsec' hwithin hwithin' hpc hoffset hn
  constructor
  · intro hnil
    have hlen := congrArg List.length heq
    rw [List.length_take, List.length_take, hnil] at hlen
    change (ctx.readAt pc kReadWindow).length ≠ 0 at hwindow
    omega
  · rw [hdec.window, toNat_kMaxInsnBytes, heq, ← toNat_kMaxInsnBytes, ← hdec.window]
    exact hok

/-- A read that reaches an instruction of another section ends there, with the raw data of its
own. -/
theorem drop_eq_nil_of_ne (hlawful : disasm.Lawful) (hin : ctx.InPlace addr) {offset : ℕ}
    {insn : Instruction} (hsec : ctx.sectionAt addr = some sec)
    (hwithin : addr - sec.vaddr < sec.size) (hother : ctx.sectionAt pc ≠ some sec)
    (hfetch : fetch disasm ctx.reader pc = some insn) (hpc : pc = addr + BitVec.ofNat 64 offset)
    (hoffset : offset ≤ (ctx.readAt addr n).length) :
    (ctx.readAt addr n).drop offset = [] := by
  have hraw := (reach_of_readAt hsec hwithin (Nat.le_refl (ctx.readAt addr n).length)).1
  obtain ⟨owner, howner, -⟩ := sectionAt_of_fetch hlawful hfetch
  have hout : sec.size.toNat ≤ (pc - sec.vaddr).toNat := by
    by_contra hlt
    have hwithin' : pc - sec.vaddr < sec.size := BitVec.lt_def.mpr (by omega)
    obtain rfl := hin.own sec hsec pc owner hwithin' howner
    exact hother howner
  rw [hpc, toNat_add_sub (by have := sec.size.isLt; omega)] at hout
  exact List.drop_eq_nil_of_le (by omega)

/-- **The rows of a block**: its instructions up to the first one that another section serves. -/
theorem takeWhile_decodeLinear (hdec : disasm.Windowed) (hin : ctx.InPlace addr)
    (hsec : ctx.sectionAt addr = some sec) (hwithin : addr - sec.vaddr < sec.size) :
    ∀ {insns : List Instruction} {max offset : ℕ} {pc : U64},
      Follows (fetch disasm ctx.reader) pc insns → pc = addr + BitVec.ofNat 64 offset →
      offset ≤ (ctx.readAt addr n).length → offset + 15 * max ≤ n →
      pc.toNat + natSize insns = finish.toNat →
      ((disasm.decodeLinear max ((ctx.readAt addr n).drop offset) pc).takeWhile
          fun insn => ¬ insn.address ≥ finish).map Instruction.address =
        ((insns.map Instruction.address).takeWhile
          fun a => ctx.sectionAt a = some sec).take max := by
  intro insns
  induction insns with
  | nil =>
      intro max offset pc _ _ _ _ hfinish
      obtain rfl : pc = finish := BitVec.eq_of_toNat_eq hfinish
      rw [takeWhile_decodeLinear_finish hdec.toLawful, List.map_nil, List.takeWhile_nil,
        List.take_nil]
  | cons insn rest ih =>
      rintro (_ | max) offset pc ⟨hfetch, hrest⟩ hpc hoffset hn hfinish
      · rfl
      have haddr : insn.address = pc := hdec.address_eq (decodeOne_of_fetch hfetch).2
      have hpos := hdec.length_pos (decodeOne_of_fetch hfetch).2
      rw [natSize_cons] at hfinish
      rw [List.map_cons, haddr]
      by_cases hsame : ctx.sectionAt pc = some sec
      · obtain ⟨hne, hok⟩ := decodeOne_drop hdec hsec hwithin hsame hfetch hpc hoffset (by omega)
        have hle := hdec.length_le hok
        have hmax : insn.length.toNat ≤ 15 := hdec.length_le_max hok
        have hlt : ¬ insn.address ≥ finish := by
          rw [haddr, ge_iff_le, BitVec.le_def]
          omega
        have hnext : insn.next.toNat = pc.toNat + insn.length.toNat := by
          rw [← haddr] at hfinish ⊢
          exact Instruction.toNat_next (by have := finish.isLt; omega)
        have hmove : insn.next = addr + BitVec.ofNat 64 (offset + insn.length.toNat) := by
          rw [Instruction.next, haddr, hpc, BitVec.ofNat_add, BitVec.add_assoc, BitVec.ofNat_toNat]
        rw [Disassembler.decodeLinear_succ, if_neg hne, hok]
        dsimp only
        rw [List.takeWhile_cons_of_pos (by simpa using hlt), List.map_cons, haddr,
          List.takeWhile_cons_of_pos (by simpa using hsame), List.take_succ_cons, List.drop_drop]
        rw [List.length_drop] at hle
        congr 1
        have hstep : pc + insn.length.setWidth 64 = insn.next := by rw [Instruction.next, haddr]
        rw [hstep]
        exact ih hrest hmove (by omega) (by omega) (by omega)
      · have hend := drop_eq_nil_of_ne hdec.toLawful hin hsec hwithin hsame hfetch hpc hoffset
        rw [Disassembler.decodeLinear_succ, hend, if_pos List.length_nil,
          List.takeWhile_cons_of_neg (by simpa using hsame), List.take_nil]
        rfl

end Decode

end StaticCtx

end Api

namespace Gui

open Analysis Api Disasm

theorem take_takeWhile_eq_self_iff {α : Type*} {p : α → Bool} {n : ℕ} {list : List α} :
    (list.takeWhile p).take n = list ↔ list.length ≤ n ∧ ∀ a ∈ list, p a = true := by
  constructor
  · intro h
    have hprefix : list.takeWhile p <+: list := List.takeWhile_prefix p
    have hall : list.takeWhile p = list := by
      apply hprefix.eq_of_length_le
      calc list.length = ((list.takeWhile p).take n).length := by rw [h]
        _ ≤ (list.takeWhile p).length := List.length_take_le' n _
    rw [hall] at h
    exact ⟨List.take_eq_self_iff list |>.mp h, List.takeWhile_eq_self_iff.mp hall⟩
  · rintro ⟨hlen, hall⟩
    rw [List.takeWhile_eq_self_iff.mpr hall, List.take_of_length_le hlen]

section

variable {ctx : LoadedCtx} {disasm : Disassembler} {it : Iteration} {fuel : ℕ}
  {result : AnalysisResult} {fn : Function} {bb : BasicBlock}

theorem map_addr_keptRows (hdec : disasm.Windowed) (hin : ctx.static.InPlace bb.addr)
    (h : ctx.analyze disasm it fuel = some result) (hfn : fn ∈ result.functions)
    (hbb : bb ∈ fn.blocks) :
    (keptRows (ctx.staticDisasm disasm bb.addr kMaxBlockInsns) (blockRow bb)).map InsnRow.addr =
      (bb.instrAddrs.takeWhile fun a =>
        ctx.static.sectionAt a = ctx.static.sectionAt bb.addr).take 256 := by
  have hplaced := StaticCtx.wellPlaced_of_fits hdec.toLawful hin.fits
  obtain ⟨insns, exit, hblock⟩ := ((analyze_progress hplaced h).2 fn hfn).blocks bb hbb
  have hfollows := hblock.chain.follows
  have hfinish : bb.addr.toNat + natSize insns = (bb.addr + bb.size).toNat := by
    have hsize : bb.size.toNat = natSize insns := by
      rw [hblock.size]
      exact hblock.chain.toNat_sizeOf hplaced
    have hbounds := (hblock.chain.bounds hplaced).1
    rw [BitVec.toNat_add, hsize, Nat.mod_eq_of_lt hbounds]
  have hrows : (keptRows (ctx.staticDisasm disasm bb.addr kMaxBlockInsns) (blockRow bb)).map
      InsnRow.addr = ((disasm.decodeLinear 256 (ctx.static.readAt bb.addr 3840) bb.addr).takeWhile
        fun insn => ¬ insn.address ≥ bb.addr + bb.size).map Instruction.address := by
    rw [keptRows, LoadedCtx.staticDisasm_eq, List.takeWhile_map, List.map_map]
    rfl
  rw [hrows, hblock.instrAddrs]
  cases insns with
  | nil =>
      have hend : bb.addr + bb.size = bb.addr := (BitVec.eq_of_toNat_eq hfinish).symm
      rw [hend, StaticCtx.takeWhile_decodeLinear_finish hdec.toLawful]
      rfl
  | cons insn rest =>
      obtain ⟨sec, hsec, hwithin, -⟩ :=
        StaticCtx.sectionAt_of_fetch hdec.toLawful hfollows.1
      rw [hsec]
      exact StaticCtx.takeWhile_decodeLinear hdec hin hsec hwithin hfollows
        (BitVec.add_zero _).symm (Nat.zero_le _) (Nat.le_refl 3840) hfinish

/-- **The rows of a block are its instructions up to the first one that another section serves, and
at most 256 of them.**  So they are all of its instructions exactly if there are no more, and one
section serves them all. -/
theorem keptRows_eq (hdec : disasm.Windowed) (hin : ctx.static.InPlace bb.addr)
    (h : ctx.analyze disasm it fuel = some result) (hfn : fn ∈ result.functions)
    (hbb : bb ∈ fn.blocks) :
    (keptRows (ctx.staticDisasm disasm bb.addr kMaxBlockInsns) (blockRow bb)).map InsnRow.addr =
        (bb.instrAddrs.takeWhile fun a =>
          ctx.static.sectionAt a = ctx.static.sectionAt bb.addr).take 256 ∧
      ((keptRows (ctx.staticDisasm disasm bb.addr kMaxBlockInsns) (blockRow bb)).map InsnRow.addr =
          bb.instrAddrs ↔
        bb.instrAddrs.length ≤ 256 ∧
          ∀ a ∈ bb.instrAddrs, ctx.static.sectionAt a = ctx.static.sectionAt bb.addr) := by
  have hrows := map_addr_keptRows hdec hin h hfn hbb
  refine ⟨hrows, ?_⟩
  rw [hrows, take_takeWhile_eq_self_iff]
  simp only [decide_eq_true_eq]

end

/-- The file of a `nop` and a `ret` has one section, in place. -/
theorem nopRetCtx_inPlace : ∀ addr, nopRetCtx.static.InPlace addr := by
  apply StaticCtx.inPlace_of_separate
  · intro sec hsec
    obtain rfl := List.mem_singleton.mp hsec
    exact ⟨by decide, by decide⟩
  · intro sec hsec
    obtain rfl := List.mem_singleton.mp hsec
    decide
  · exact List.pairwise_singleton _ _

theorem keptRows_eq_nopRet : ∃ fuel result,
    nopRetCtx.analyze smallDecoder sortedKeys fuel = some result ∧
    ∃ fn ∈ result.functions, ∃ bb ∈ fn.blocks,
      (keptRows (nopRetCtx.staticDisasm smallDecoder bb.addr kMaxBlockInsns)
          (blockRow bb)).map InsnRow.addr =
        (bb.instrAddrs.takeWhile fun a =>
          nopRetCtx.static.sectionAt a = nopRetCtx.static.sectionAt bb.addr).take 256 ∧
      ((keptRows (nopRetCtx.staticDisasm smallDecoder bb.addr kMaxBlockInsns)
          (blockRow bb)).map InsnRow.addr = bb.instrAddrs ↔
        bb.instrAddrs.length ≤ 256 ∧
          ∀ a ∈ bb.instrAddrs,
            nopRetCtx.static.sectionAt a = nopRetCtx.static.sectionAt bb.addr) := by
  have hplaced := StaticCtx.wellPlaced_of_fits smallDecoder_lawful (nopRetCtx_inPlace 0).fits
  obtain ⟨fuel, result, hrun⟩ := exists_analyze hplaced (some nopRetCtx.resolveSymbol)
    (nopRetCtx.entries sortedKeys)
  have hentry : (0x1000 : U64) ∈ nopRetCtx.entries sortedKeys :=
    List.mem_append_left _ (List.mem_singleton_self _)
  obtain ⟨fn, hfn, -⟩ := (analyze_rooted hrun).2 0x1000 hentry (by decide)
  obtain ⟨bb, hbb, -⟩ := (blocks_ordered (analyze_fromBuild hrun fn hfn)).2
  exact ⟨fuel, result, hrun, fn, hfn, bb, hbb,
    keptRows_eq smallDecoder_windowed (nopRetCtx_inPlace bb.addr) hrun hfn hbb⟩

/-! ## Long blocks, and blocks that run on -/

theorem mem_image_of_mem_readAt {ctx : StaticCtx} {addr : U64} {n : ℕ} {b : Byte}
    (hb : b ∈ ctx.readAt addr n) : b ∈ ctx.image := by
  rcases ctx.readAt_bounds addr n with ⟨-, hnil⟩ | ⟨_, _, _, -, -, -, -, -, -, hread, -⟩
  · rw [hnil] at hb
    cases hb
  · rw [hread] at hb
    exact List.mem_of_mem_drop (List.mem_of_mem_take hb)

/-- Where the opcodes of branches are missing, no instruction is a branch. -/
theorem flow_of_notMem {ctx : LoadedCtx} (hjump : 0xEB ∉ ctx.image) (hcond : 0x75 ∉ ctx.image)
    {pc : U64} {insn : Instruction} (h : fetch smallDecoder ctx.static.reader pc = some insn) :
    insn.flow ≠ .jump ∧ insn.flow ≠ .condJump := by
  obtain ⟨hj, hc, -⟩ := smallDecoder_opcode (decodeOne_of_fetch h).2
  exact ⟨fun heq => hjump (mem_image_of_mem_readAt (hj heq)),
    fun heq => hcond (mem_image_of_mem_readAt (hc heq))⟩

/-- Code without a branch is one block. -/
theorem exists_straight_block {ctx : LoadedCtx} (hfits : ctx.static.Fits)
    (hentry : ctx.bin.entryPoint ≠ 0) (hjump : 0xEB ∉ ctx.image) (hcond : 0x75 ∉ ctx.image) :
    ∃ fuel result, ctx.analyze smallDecoder sortedKeys fuel = some result ∧
      ∃ fn ∈ result.functions, ∃ bb ∈ fn.blocks, bb.addr = ctx.bin.entryPoint ∧
        ∀ a, Reached (fetch smallDecoder ctx.static.reader) ctx.bin.entryPoint a →
          a ∈ bb.instrAddrs := by
  have hplaced := StaticCtx.wellPlaced_of_fits smallDecoder_lawful hfits
  obtain ⟨fuel, result, hrun⟩ := exists_analyze hplaced (some ctx.resolveSymbol)
    (ctx.entries sortedKeys)
  have hmem : ctx.bin.entryPoint ∈ ctx.entries sortedKeys := by
    rw [LoadedCtx.entries, if_pos hentry]
    exact List.mem_append_left _ (List.mem_singleton_self _)
  obtain ⟨fn, hfn, haddr⟩ := (analyze_rooted hrun).2 _ hmem hentry
  have hcanon := (analyze_progress hplaced hrun).2 fn hfn
  rw [haddr] at hcanon
  have hflow := @flow_of_notMem ctx hjump hcond
  have hleader : ∀ {l}, Leader (fetch smallDecoder ctx.static.reader) ctx.bin.entryPoint l →
      l = ctx.bin.entryPoint := by
    intro l hl
    cases hl with
    | entry => rfl
    | target _ hfetch hbr => exact absurd hbr.1 (not_or.mpr (hflow hfetch))
    | next _ hfetch hcondJump => exact absurd hcondJump (hflow hfetch).2
  obtain ⟨bb, hbb, hstart⟩ := (hcanon.mem_addr_iff ctx.bin.entryPoint).mpr .entry
  refine ⟨fuel, result, hrun, fn, hfn, bb, hbb, hstart, fun a ha => ?_⟩
  obtain ⟨other, hother, insns, exit, hblock, insn, hinsn, rfl⟩ := hcanon.exists_block hplaced ha
  have hotherStart := hleader ((hcanon.mem_addr_iff other.addr).mp ⟨other, hother, rfl⟩)
  obtain rfl := hcanon.eq_of_addr_eq hbb hother (hstart.trans hotherStart.symm)
  rw [hblock.instrAddrs]
  exact List.mem_map_of_mem hinsn

/-- `0x1000: nop; nop` and, in the next section, `0x1002: nop; ret`. -/
def adjacentCtx : LoadedCtx where
  bin := ⟨⟨0x1000, [⟨0x1000, 2, 0, 2⟩, ⟨0x1002, 2, 2, 2⟩]⟩, 0x1000, [], [], []⟩
  image := [0x90, 0x90, 0x90, 0xC3]
  length_lt := by decide
  symbolMap := ∅

theorem adjacentCtx_inPlace : ∀ addr, adjacentCtx.static.InPlace addr := by
  have hmem : ∀ sec ∈ adjacentCtx.static.bin.sections,
      sec = ⟨0x1000, 2, 0, 2⟩ ∨ sec = ⟨0x1002, 2, 2, 2⟩ := fun sec hsec => by
    simpa [adjacentCtx, LoadedCtx.static] using hsec
  apply StaticCtx.inPlace_of_separate
  · intro sec hsec
    rcases hmem sec hsec with rfl | rfl <;> exact ⟨by decide, by decide⟩
  · intro sec hsec
    rcases hmem sec hsec with rfl | rfl <;> decide
  · apply List.pairwise_pair.mpr
    decide

theorem adjacent_reached :
    Reached (fetch smallDecoder adjacentCtx.static.reader) 0x1000 0x1002 := by
  have hfirst : fetch smallDecoder adjacentCtx.static.reader 0x1000 =
      some { address := 0x1000, length := 1 } := by decide
  have hsecond : fetch smallDecoder adjacentCtx.static.reader 0x1001 =
      some { address := 0x1001, length := 1 } := by decide
  have hthird : (fetch smallDecoder adjacentCtx.static.reader 0x1002).isSome := by decide
  have hstart : Reached (fetch smallDecoder adjacentCtx.static.reader) 0x1000 0x1000 :=
    .entry (by rw [hfirst]; rfl)
  have hnext : Reached (fetch smallDecoder adjacentCtx.static.reader) 0x1000 0x1001 :=
    hstart.succ (.next hfirst (Or.inl (Or.inl rfl))) (by rw [hsecond]; rfl)
  exact hnext.succ (.next hsecond (Or.inl (Or.inl rfl))) hthird

/-- `0x1000:` 256 times `nop`, and `ret`. -/
def longCtx : LoadedCtx where
  bin := ⟨⟨0x1000, [⟨0x1000, 257, 0, 257⟩]⟩, 0x1000, [], [], []⟩
  image := List.replicate 256 0x90 ++ [0xC3]
  length_lt := by
    rw [List.length_append, List.length_replicate]
    decide
  symbolMap := ∅

theorem longCtx_inPlace : ∀ addr, longCtx.static.InPlace addr := by
  apply StaticCtx.inPlace_of_separate
  · intro sec hsec
    obtain rfl := List.mem_singleton.mp hsec
    exact ⟨by decide, by decide⟩
  · intro sec hsec
    obtain rfl := List.mem_singleton.mp hsec
    decide
  · exact List.pairwise_singleton _ _

theorem mem_long_image {b : Byte} (h : b ∈ longCtx.image) : b = 0x90 ∨ b = 0xC3 :=
  (List.mem_append.mp h).imp List.eq_of_mem_replicate List.mem_singleton.mp

theorem long_offset {k : ℕ} (hk : k < 257) :
    ((0x1000 : U64) + BitVec.ofNat 64 k - 0x1000).toNat = k := by
  have h : ((0x1000 : U64) - 0x1000).toNat = 0 := by decide
  rw [StaticCtx.toNat_add_sub (by omega), h, Nat.zero_add]

theorem long_window {k : ℕ} (hk : k < 257) : ∃ rest,
    longCtx.static.readAt (0x1000 + BitVec.ofNat 64 k) kReadWindow =
      (if k < 256 then 0x90 else 0xC3) :: rest := by
  have hwithin : (0x1000 : U64) + BitVec.ofNat 64 k - 0x1000 < 257 := by
    rw [BitVec.lt_def, long_offset hk]
    exact hk
  have hsec : longCtx.static.sectionAt (0x1000 + BitVec.ofNat 64 k) =
      some ⟨0x1000, 257, 0, 257⟩ := by
    have hnat : ((0x1000 : U64) + BitVec.ofNat 64 k).toNat = 0x1000 + k := by
      have hbase : (0x1000 : U64).toNat = 0x1000 := rfl
      rw [BitVec.toNat_add, BitVec.toNat_ofNat, hbase]
      omega
    have hend : ((0x1000 : U64) + 257).toNat = 0x1000 + 257 := rfl
    refine List.find?_cons_of_pos (decide_eq_true ⟨?_, ?_⟩)
    · rw [BitVec.le_def, hnat]
      exact Nat.le_add_right _ k
    · rw [BitVec.lt_def, hnat, hend]
      omega
  have hbyte : longCtx.static.image[k]? = some (if k < 256 then 0x90 else 0xC3) := by
    show (List.replicate 256 (0x90 : Byte) ++ [0xC3])[k]? = _
    by_cases hnop : k < 256
    · rw [List.getElem?_append_left (by rwa [List.length_replicate]), List.getElem?_replicate,
        if_pos hnop, if_pos hnop]
    · obtain rfl : k = 256 := by omega
      rw [List.getElem?_append_right (by rw [List.length_replicate]), List.length_replicate,
        if_neg hnop]
      rfl
  obtain ⟨hlt, hget⟩ := List.getElem?_eq_some_iff.mp hbyte
  have hoff : ((0 : U64) + (0x1000 + BitVec.ofNat 64 k - 0x1000)).toNat = k := by
    rw [zero_add]
    exact long_offset hk
  obtain ⟨m, hm⟩ : ∃ m, min kReadWindow
      ((257 : U64) - (0x1000 + BitVec.ofNat 64 k - 0x1000)).toNat = m + 1 := by
    have hsub := BitVec.toNat_sub_of_le (BitVec.le_of_lt hwithin)
    rw [long_offset hk] at hsub
    have hwindow : kReadWindow = 256 := rfl
    have htotal : (257 : U64).toNat = 257 := rfl
    exact Nat.exists_eq_succ_of_ne_zero (by omega)
  rw [StaticCtx.readAt_eq hsec hwithin, hoff, hm, List.drop_eq_getElem_cons hlt,
    List.take_succ_cons, hget]
  exact ⟨_, rfl⟩

theorem long_fetch {k : ℕ} (hk : k < 257) : ∃ insn,
    fetch smallDecoder longCtx.static.reader (0x1000 + BitVec.ofNat 64 k) = some insn ∧
      insn.next = 0x1000 + BitVec.ofNat 64 (k + 1) ∧ (k < 256 → FallsThrough insn) := by
  obtain ⟨rest, hwindow⟩ := long_window hk
  have hread : longCtx.static.reader.read (0x1000 + BitVec.ofNat 64 k) kReadWindow =
      (if k < 256 then 0x90 else 0xC3) :: rest := hwindow
  have hnext : (0x1000 : U64) + BitVec.ofNat 64 k + 1 = 0x1000 + BitVec.ofNat 64 (k + 1) := by
    rw [BitVec.ofNat_add, BitVec.add_assoc]
    rfl
  by_cases hnop : k < 256
  · rw [if_pos hnop] at hread
    refine ⟨{ address := 0x1000 + BitVec.ofNat 64 k, length := 1 }, ?_, hnext,
      fun _ => Or.inl rfl⟩
    rw [fetch, hread]
    rfl
  · rw [if_neg hnop] at hread
    refine ⟨{ address := 0x1000 + BitVec.ofNat 64 k, length := 1, flow := .ret }, ?_, hnext,
      fun h => absurd h hnop⟩
    rw [fetch, hread]
    rfl

theorem long_reached {k : ℕ} (hk : k < 257) :
    Reached (fetch smallDecoder longCtx.static.reader) 0x1000 (0x1000 + BitVec.ofNat 64 k) := by
  induction k with
  | zero =>
      obtain ⟨insn, hfetch, -⟩ := long_fetch hk
      exact .entry (by rw [show (0x1000 : U64) = 0x1000 + BitVec.ofNat 64 0 from rfl, hfetch]; rfl)
  | succ k ih =>
      obtain ⟨insn, hfetch, hnext, hfalls⟩ := long_fetch (Nat.lt_of_succ_lt hk)
      obtain ⟨_, hfetch', -⟩ := long_fetch hk
      have hstep := Succ.next hfetch (Or.inl (hfalls (by omega)))
      rw [hnext] at hstep
      exact (ih (by omega)).succ hstep (by rw [hfetch']; rfl)

/-- **Not all instructions have rows.**  None in the next section has one, and in a block of more
than 256 instructions the last ones have none. -/
theorem not_keptRows_eq :
    (∃ fuel result, adjacentCtx.analyze smallDecoder sortedKeys fuel = some result ∧
      ∃ fn ∈ result.functions, ∃ bb ∈ fn.blocks,
        (keptRows (adjacentCtx.staticDisasm smallDecoder bb.addr kMaxBlockInsns)
          (blockRow bb)).map InsnRow.addr ≠ bb.instrAddrs) ∧
    ∃ fuel result, longCtx.analyze smallDecoder sortedKeys fuel = some result ∧
      ∃ fn ∈ result.functions, ∃ bb ∈ fn.blocks,
        (keptRows (longCtx.staticDisasm smallDecoder bb.addr kMaxBlockInsns)
          (blockRow bb)).map InsnRow.addr ≠ bb.instrAddrs := by
  constructor
  · obtain ⟨fuel, result, hrun, fn, hfn, bb, hbb, hstart, hall⟩ :=
      exists_straight_block (adjacentCtx_inPlace 0).fits (by decide) (by decide) (by decide)
    refine ⟨fuel, result, hrun, fn, hfn, bb, hbb, fun heq => ?_⟩
    rw [map_addr_keptRows smallDecoder_windowed (adjacentCtx_inPlace bb.addr) hrun hfn hbb,
      take_takeWhile_eq_self_iff] at heq
    have hsame := of_decide_eq_true (heq.2 0x1002 (hall 0x1002 adjacent_reached))
    rw [hstart] at hsame
    exact absurd hsame (by decide)
  · obtain ⟨fuel, result, hrun, fn, hfn, bb, hbb, -, hall⟩ :=
      exists_straight_block (longCtx_inPlace 0).fits (by decide)
        (fun h => (mem_long_image h).elim (by decide) (by decide))
        (fun h => (mem_long_image h).elim (by decide) (by decide))
    refine ⟨fuel, result, hrun, fn, hfn, bb, hbb, fun heq => ?_⟩
    rw [map_addr_keptRows smallDecoder_windowed (longCtx_inPlace bb.addr) hrun hfn hbb,
      take_takeWhile_eq_self_iff] at heq
    -- there are 257 instructions
    have hnodup : ((List.range 257).map fun k => (0x1000 : U64) + BitVec.ofNat 64 k).Nodup := by
      refine List.nodup_range.map_on fun x hx y hy hxy => ?_
      rw [← long_offset (List.mem_range.mp hx), hxy, long_offset (List.mem_range.mp hy)]
    have hsub : ((List.range 257).map fun k => (0x1000 : U64) + BitVec.ofNat 64 k) ⊆
        bb.instrAddrs := by
      intro a ha
      obtain ⟨k, hk, rfl⟩ := List.mem_map.mp ha
      exact hall _ (long_reached (List.mem_range.mp hk))
    have hlen := (hnodup.subperm hsub).length_le
    rw [List.length_map, List.length_range] at hlen
    exact absurd heq.1 (by omega)

end Gui

end Irida
