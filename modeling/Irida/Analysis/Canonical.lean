import Irida.Analysis.Split

/-!
# `build` returns the canonical control-flow graph

`build_spec` puts discovery and splitting together: for every large enough fuel
`build` returns one and the same function, which is canonical.  Canonical means
that the function is determined by the code alone: its blocks start at the
leaders, in increasing order, and each of them is the decode chain from its
leader up to the first transfer, the first other leader, or the first address
that does not decode.
-/

namespace Irida.Analysis

open Disasm

/-- The canonical block of a leader.  A chain that is cut before a leader falls
through to it, and one that meets an address which does not decode has no
successor there unless that address is a leader as well. -/
structure CanonicalBlock (fetch : U64 → Option Instruction) (leader : U64 → Prop)
    (bb : BasicBlock) (insns : List Instruction) (exit : Exit) : Prop where
  chain : Chain fetch bb.addr insns exit
  interior : ∀ insn ∈ insns.tail, ¬ leader insn.address
  cut : ∀ {next : U64}, exit = .cut next → leader next ∧ insns ≠ []
  instrAddrs : bb.instrAddrs = insns.map Instruction.address
  size : bb.size = (insns.map fun insn => insn.length.setWidth 64).sum
  jump : bb.jump = exit.jumpEdge
  fail : bb.fail = exit.failEdge

/-- The canonical control-flow graph of the function at an entry. -/
structure CanonicalFunction (fetch : U64 → Option Instruction) (entry : U64)
    (fn : Function) : Prop where
  addr : fn.addr = entry
  sorted : fn.blocks.Pairwise fun a b => a.addr < b.addr
  mem_addr_iff : ∀ l, (∃ bb ∈ fn.blocks, bb.addr = l) ↔ Leader fetch entry l
  blocks : ∀ bb ∈ fn.blocks, ∃ insns exit,
    CanonicalBlock fetch (Leader fetch entry) bb insns exit

/-! ## The code determines the graph -/

/-- A chain that is cut after some instructions is cut at a larger address. -/
theorem Chain.lt_of_cut {fetch : U64 → Option Instruction} (hplaced : WellPlaced fetch)
    {a next : U64} {insns : List Instruction} {exit : Exit} (h : Chain fetch a insns exit)
    (hcut : exit = .cut next) : a.toNat + natSize insns = next.toNat := by
  induction h with
  | dead _ | jump _ _ | condJump _ _ | ret _ _ => cases hcut
  | cut =>
      cases hcut
      simp
  | @more a insn insns _ hinsn _ _ ih =>
      have hstep := Instruction.toNat_next (hplaced.end_lt hinsn)
      rw [hplaced.address_eq hinsn] at hstep
      calc a.toNat + natSize (insn :: insns)
          = insn.next.toNat + natSize insns := by rw [natSize_cons, hstep, Nat.add_assoc]
        _ = next.toNat := ih hcut

theorem Chain.ne_zero_of_cut {fetch : U64 → Option Instruction} (hplaced : WellPlaced fetch)
    {a next : U64} {insns : List Instruction} {exit : Exit} (h : Chain fetch a insns exit)
    (hcut : exit = .cut next) {insn : Instruction} (hinsn : insn ∈ insns) : next ≠ 0 := by
  intro hzero
  have hend := h.lt_of_cut hplaced hcut
  have hbounds := (h.bounds hplaced).2 insn hinsn
  rw [hzero, show (0 : U64).toNat = 0 from rfl] at hend
  omega

private theorem not_cut_of_mem {fetch : U64 → Option Instruction} {barrier : U64 → Prop}
    (hplaced : Placed fetch) {pc : U64} {insn : Instruction} {rest : List Instruction}
    (hinsn : fetch pc = some insn) (hfree : ∀ other ∈ insn :: rest, ¬ barrier other.address) :
    ¬ barrier pc := by
  rw [← hplaced.address_eq hinsn]
  exact hfree insn (List.mem_cons_self ..)

/-- Two chains from one address that contain no barrier are the same if only
barriers cut them. -/
theorem Chain.eq_of_barrier {fetch : U64 → Option Instruction} {barrier : U64 → Prop}
    (hplaced : Placed fetch) {a : U64} {insns : List Instruction} {exit : Exit}
    (h : Chain fetch a insns exit) : ∀ {insns' : List Instruction} {exit' : Exit},
      Chain fetch a insns' exit' → (∀ insn ∈ insns, ¬ barrier insn.address) →
      (∀ insn ∈ insns', ¬ barrier insn.address) → (∀ {next}, exit = .cut next → barrier next) →
      (∀ {next}, exit' = .cut next → barrier next) → insns = insns' := by
  -- the same instruction is fetched for both chains, so they end in the same way, or go on together
  induction h with
  | dead hnone => intro _ _ h' _ _ _ _; cases h' <;> simp_all
  | cut =>
      intro _ _ h' _ hfree' hcut _
      cases h' with
      | dead _ | cut => rfl
      | jump hinsn _ | condJump hinsn _ | ret hinsn _ | more hinsn _ _ =>
          exact absurd (hcut rfl) (not_cut_of_mem hplaced hinsn hfree')
  | @jump _ _ hinsn hflow | @condJump _ _ hinsn hflow | @ret _ _ hinsn hflow =>
      intro _ _ h' hfree _ _ hcut'
      cases h' with
      | dead hnone => simp [hnone] at hinsn
      | cut => exact absurd (hcut' rfl) (not_cut_of_mem hplaced hinsn hfree)
      | jump hother _ | condJump hother _ | ret hother _ =>
          rw [Option.some.inj (hinsn.symm.trans hother)]
      | more hother hfalls _ =>
          obtain rfl := Option.some.inj (hinsn.symm.trans hother)
          simp [FallsThrough, hflow] at hfalls
  | more hinsn hfalls _ ih =>
      intro _ _ h' hfree hfree' hcut hcut'
      cases h' with
      | dead hnone => simp [hnone] at hinsn
      | cut => exact absurd (hcut' rfl) (not_cut_of_mem hplaced hinsn hfree)
      | jump hother hflow | condJump hother hflow | ret hother hflow =>
          obtain rfl := Option.some.inj (hinsn.symm.trans hother)
          simp [FallsThrough, hflow] at hfalls
      | more hother _ hrest' =>
          obtain rfl := Option.some.inj (hinsn.symm.trans hother)
          rw [List.forall_mem_cons] at hfree hfree'
          rw [ih hrest' hfree.2 hfree'.2 hcut hcut']

/-- The leaders other than the start of a canonical block are the barriers of
its chain. -/
theorem CanonicalBlock.barrier {fetch : U64 → Option Instruction} {leader : U64 → Prop}
    {bb : BasicBlock} {insns : List Instruction} {exit : Exit} (hplaced : WellPlaced fetch)
    (h : CanonicalBlock fetch leader bb insns exit) :
    (∀ insn ∈ insns, ¬ (leader insn.address ∧ insn.address ≠ bb.addr)) ∧
      ∀ {next}, exit = .cut next → leader next ∧ next ≠ bb.addr := by
  constructor
  · cases hinsns : insns with
    | nil => simp
    | cons insn rest =>
        have hchain := h.chain
        have hinterior := h.interior
        rw [hinsns] at hchain hinterior
        rw [List.forall_mem_cons]
        exact ⟨fun hbar => hbar.2 (hchain.head_address hplaced.toPlaced),
          fun other hother hbar => hinterior other hother hbar.1⟩
  · intro next hcut
    obtain ⟨hleader, hne⟩ := h.cut hcut
    refine ⟨hleader, fun heq => ?_⟩
    have hsize := h.chain.lt_of_cut hplaced hcut
    obtain ⟨insn, rest, rfl⟩ := List.exists_cons_of_ne_nil hne
    have hpos := hplaced.length_pos (h.chain.fetch_eq hplaced.toPlaced insn (List.mem_cons_self ..))
    rw [heq, natSize_cons] at hsize
    omega

/-- **The canonical block of a leader is unique**: the code and the set of
leaders determine the instructions listed. -/
theorem CanonicalBlock.unique {fetch : U64 → Option Instruction} {leader : U64 → Prop}
    {bb bb' : BasicBlock} {insns insns' : List Instruction} {exit exit' : Exit}
    (hplaced : WellPlaced fetch) (h : CanonicalBlock fetch leader bb insns exit)
    (h' : CanonicalBlock fetch leader bb' insns' exit') (haddr : bb.addr = bb'.addr) :
    insns = insns' := by
  obtain ⟨hfree, hcut⟩ := h.barrier hplaced
  obtain ⟨hfree', hcut'⟩ := h'.barrier hplaced
  have hchain := h'.chain
  rw [← haddr] at hfree' hcut' hchain
  exact h.chain.eq_of_barrier hplaced.toPlaced hchain hfree hfree' hcut hcut'

/-! ## More fuel does not change a result -/

section Monotone

variable {disasm : Disassembler} {reader : ByteReader}

theorem traceLoop_mono {start : U64} {fuel : ℕ} :
    ∀ {larger : ℕ} {pc : U64} {bb : BasicBlock} {b : Builder} {r : BasicBlock × Builder},
      fuel ≤ larger → traceLoop disasm reader start fuel pc bb b = some r →
      traceLoop disasm reader start larger pc bb b = some r := by
  induction fuel with
  | zero => intro _ _ _ _ _ _ h; simp [traceLoop] at h
  | succ fuel ih =>
      intro larger pc bb b r hle h
      obtain ⟨larger, rfl⟩ : ∃ n, larger = n + 1 := ⟨larger - 1, by omega⟩
      by_cases hstop : pc ≠ start ∧ pc ∈ b.leaders
      · rw [traceLoop, if_pos hstop] at h ⊢
        exact h
      cases hfetch : fetch disasm reader pc with
      | none =>
          rw [traceLoop_of_fetch_none hstop hfetch] at h ⊢
          exact h
      | some insn =>
          rw [traceLoop_of_fetch_some hstop hfetch] at h ⊢
          cases hflow : insn.flow <;> simp only [hflow] at h ⊢
          case sequential | call => exact ih (by omega) h
          all_goals exact h

theorem visitBlock_mono {fuel larger : ℕ} (hle : fuel ≤ larger) (start : U64) (b : Builder)
    (r : Builder × List U64) (h : visitBlock disasm reader fuel start b = some r) :
    visitBlock disasm reader larger start b = some r := by
  unfold visitBlock at h ⊢
  split at h
  · next hstart => rw [if_pos hstart, h]
  · next hstart =>
      rw [if_neg hstart]
      cases htrace : traceBlock disasm reader fuel start b with
      | none => simp [htrace] at h
      | some found =>
          have hlarger : traceBlock disasm reader larger start b = some found :=
            traceLoop_mono hle htrace
          rw [htrace] at h
          rw [hlarger]
          exact h

theorem splitLoop_mono {leaders : Std.ExtTreeSet U64} {fuel : ℕ} :
    ∀ {larger : ℕ} {blocks r : Std.ExtTreeMap U64 BasicBlock}, fuel ≤ larger →
      splitLoop leaders fuel blocks = some r → splitLoop leaders larger blocks = some r := by
  induction fuel with
  | zero => intro _ _ _ _ h; simp [splitLoop] at h
  | succ fuel ih =>
      intro larger blocks r hle h
      obtain ⟨larger, rfl⟩ : ∃ n, larger = n + 1 := ⟨larger - 1, by omega⟩
      rw [splitLoop] at h ⊢
      cases hfind : findSplit leaders.toList blocks.toList with
      | none => simpa [hfind] using h
      | some found =>
          simp only [hfind] at h ⊢
          exact ih (by omega) h

theorem finalize_mono {fuel larger : ℕ} (hle : fuel ≤ larger) {entry : U64} {b : Builder}
    {fn : Function} (h : finalize fuel entry b = some fn) :
    finalize larger entry b = some fn := by
  obtain ⟨blocks, hsplit, hfn⟩ := finalize_eq_some.mp h
  exact finalize_eq_some.mpr ⟨blocks, splitLoop_mono hle hsplit, hfn⟩

theorem build_mono {fuel larger : ℕ} (hle : fuel ≤ larger) {entry : U64} {xrefs : List Xref}
    {r : Function × List U64 × List Xref} (h : build disasm reader fuel entry xrefs = some r) :
    build disasm reader larger entry xrefs = some r := by
  obtain ⟨fn, callees, xrefs⟩ := r
  obtain ⟨b, hrun, hfinal, hrest⟩ := build_eq_some.mp h
  exact build_eq_some.mpr ⟨b, Worklist.run_mono
    (fun x data r => visitBlock_mono hle x data r) hle hrun, finalize_mono hle hfinal, hrest⟩

end Monotone

/-! ## The finished function -/

/-- `finalize` after discovery. -/
theorem finalize_spec {fetch : U64 → Option Instruction} (hplaced : WellPlaced fetch)
    {entry : U64} {old : List Xref} {s : Worklist.State U64 Builder}
    (h : Discovered fetch entry old s) (hdone : s.work = []) {fuel : ℕ}
    (hfuel : weight s.data.leaders s.data.blocks < fuel) :
    ∃ fn, finalize fuel entry s.data = some fn ∧ CanonicalFunction fetch entry fn := by
  obtain ⟨blocks, hrun, hcut, hsplit⟩ := splitLoop_spec hplaced (h.cut hplaced hdone) hfuel
  have hmerge := hcut.keyed.mergeSort_toList
  -- sorting changes nothing, since the map lists its blocks by their addresses
  refine ⟨_, by rw [finalize, hrun], rfl, ?_, fun l => ?_, fun bb hbb => ?_⟩
  · rw [hmerge]
    exact hcut.keyed.pairwise_toList
  · rw [← h.mem_leaders_iff hplaced.toPlaced (hplaced.nullSafe _) hdone, ← hcut.mem_iff]
    simp only [hmerge, mem_map_snd_toList]
    constructor
    · rintro ⟨bb, ⟨key, hget⟩, rfl⟩
      rw [hcut.keyed key bb hget]
      exact Std.ExtTreeMap.mem_iff_isSome_getElem?.mpr (by simp [hget])
    · intro hl
      have hget := Std.ExtTreeMap.getElem?_eq_some_getElem hl
      exact ⟨blocks[l], ⟨l, hget⟩, hcut.keyed l _ hget⟩
  · simp only [hmerge, mem_map_snd_toList] at hbb
    obtain ⟨key, hget⟩ := hbb
    obtain ⟨insns, exit, hblock⟩ := hcut.chain key bb hget
    have hinterior := hblock.interior hplaced hsplit hget
    obtain rfl := hblock.eq
    refine ⟨insns, exit, hblock.chain, ?_, ?_, rfl, rfl, rfl, rfl⟩
    · intro insn hinsn hleader
      exact hinterior insn hinsn
        ((h.mem_leaders_iff hplaced.toPlaced (hplaced.nullSafe _) hdone).mpr hleader)
    · intro next hnext
      obtain ⟨hmem, hne⟩ := hblock.cut_mem hnext
      exact ⟨(h.mem_leaders_iff hplaced.toPlaced (hplaced.nullSafe _) hdone).mp hmem, hne⟩

/-- The two halves of `build`, for every large enough fuel. -/
theorem discover_finalize_spec {disasm : Disassembler} {reader : ByteReader}
    (hplaced : WellPlaced (fetch disasm reader)) (entry : U64) (old : List Xref) :
    ∃ bound fn s,
      (∀ fuel ≥ bound, Worklist.run (visitBlock disasm reader fuel) fuel
          ⟨[entry], {entry}, { leaders := (∅ : Std.ExtTreeSet U64).insert entry, xrefs := old }⟩ =
            some s.data ∧ finalize fuel entry s.data = some fn) ∧
      CanonicalFunction (fetch disasm reader) entry fn ∧
      Discovered (fetch disasm reader) entry old s ∧ s.work = [] := by
  have hword : 2 ^ 64 < 2 ^ 64 + 1 := Nat.lt_succ_self _
  obtain ⟨s, hrun, hdisc, hdone⟩ := run_visitBlock_spec entry old hplaced hword
  obtain ⟨fn, hfn, hcanon⟩ := finalize_spec hplaced hdisc hdone (Nat.lt_succ_self _)
  -- enough for each visit and the queue, and for the splits
  refine ⟨max (2 ^ 64 + 1) (weight s.data.leaders s.data.blocks + 1), fn, s,
    fun fuel hfuel => ?_, hcanon, hdisc, hdone⟩
  have hvisit : ∀ x data r, visitBlock disasm reader (2 ^ 64 + 1) x data = some r →
      visitBlock disasm reader fuel x data = some r :=
    visitBlock_mono (le_of_max_le_left hfuel)
  exact ⟨Worklist.run_mono hvisit (le_of_max_le_left hfuel) hrun,
    finalize_mono (le_of_max_le_right hfuel) hfn⟩

/-- **What `build` returns**: the canonical function, and the call targets and the
references that were discovered. -/
theorem build_spec {disasm : Disassembler} {reader : ByteReader}
    (hplaced : WellPlaced (fetch disasm reader)) (entry : U64) (old : List Xref) :
    ∃ bound fn s,
      (∀ fuel ≥ bound,
        build disasm reader fuel entry old = some (fn, s.data.callees, s.data.xrefs)) ∧
      CanonicalFunction (fetch disasm reader) entry fn ∧
      Discovered (fetch disasm reader) entry old s ∧ s.work = [] := by
  obtain ⟨bound, fn, s, hrun, hrest⟩ := discover_finalize_spec hplaced entry old
  refine ⟨bound, fn, s, fun fuel hfuel => ?_, hrest⟩
  exact build_eq_some.mpr ⟨s.data, (hrun fuel hfuel).1, (hrun fuel hfuel).2, rfl, rfl⟩

/-- **`build` returns the canonical control-flow graph.** -/
theorem build_canonical {disasm : Disassembler} {reader : ByteReader} (hlawful : disasm.Lawful)
    (hend : ∀ pc insn, fetch disasm reader pc = some insn →
      insn.address.toNat + insn.length.toNat < 2 ^ 64)
    (entry : U64) (old : List Xref) :
    ∃ bound fn callees xrefs,
      (∀ fuel ≥ bound, build disasm reader fuel entry old = some (fn, callees, xrefs)) ∧
      CanonicalFunction (fetch disasm reader) entry fn := by
  obtain ⟨bound, fn, s, hrun, hcanon, -⟩ := build_spec (wellPlaced_fetch hlawful hend) entry old
  exact ⟨bound, fn, s.data.callees, s.data.xrefs, hrun, hcanon⟩

/-! ## A small program -/

/-- The bytes of an image that is mapped at `base`. -/
def imageReader (base : U64) (image : Bytes) : ByteReader where
  read addr n := if base ≤ addr then (image.drop (addr - base).toNat).take n else []
  length_le addr n := by
    split
    · exact List.length_take_le n _
    · exact Nat.zero_le n

/-- Five instructions of x86: `nop`, `ret`, and the direct `jmp`, `jne` and `call`
with a displacement of one byte. -/
def smallDecoder : Disassembler where
  decodeOne bytes pc :=
    let direct (disp : Byte) (flow : Flow) : Result Instruction :=
      .ok { address := pc, length := 2, flow := flow, branchTarget := pc + 2 + disp.signExtend 64 }
    match bytes with
    | [] => .error "decode failed"
    | opcode :: rest =>
      if opcode = 0x90 then .ok { address := pc, length := 1 }
      else if opcode = 0xC3 then .ok { address := pc, length := 1, flow := .ret }
      else
        match rest with
        | [] => .error "decode failed"
        | disp :: _ =>
          if opcode = 0xEB then direct disp .jump
          else if opcode = 0x75 then direct disp .condJump
          else if opcode = 0xE8 then direct disp .call
          else .error "decode failed"

theorem smallDecoder_decodeOne {bytes : Bytes} {pc : U64} {insn : Instruction}
    (h : smallDecoder.decodeOne bytes pc = .ok insn) :
    insn.address = pc ∧ 0 < insn.length.toNat ∧ insn.length.toNat ≤ bytes.length ∧
      insn.length.toNat ≤ 2 := by
  simp only [smallDecoder] at h
  repeat' split at h
  all_goals
    cases h
    try simp

theorem smallDecoder_opcode {bytes : Bytes} {pc : U64} {insn : Instruction}
    (h : smallDecoder.decodeOne bytes pc = .ok insn) :
    (insn.flow = .jump → 0xEB ∈ bytes) ∧ (insn.flow = .condJump → 0x75 ∈ bytes) ∧
      (insn.flow = .call → 0xE8 ∈ bytes) := by
  simp only [smallDecoder] at h
  repeat' split at h
  all_goals
    cases h
    try simp [*]

theorem smallDecoder_lawful : smallDecoder.Lawful where
  address_eq h := (smallDecoder_decodeOne h).1
  length_pos h := (smallDecoder_decodeOne h).2.1
  length_le h := (smallDecoder_decodeOne h).2.2.1

/-- No instruction of an image that ends before the address space does reaches its end. -/
theorem image_fetch_end {base : U64} {image : Bytes}
    (hfit : base.toNat + image.length + 1 < 2 ^ 64) : ∀ pc insn,
    fetch smallDecoder (imageReader base image) pc = some insn →
      insn.address.toNat + insn.length.toNat < 2 ^ 64 := by
  intro pc insn h
  obtain ⟨hwindow, hdecode⟩ := decodeOne_of_fetch h
  obtain ⟨haddr, -, -, hlen⟩ := smallDecoder_decodeOne hdecode
  simp only [imageReader] at hwindow
  split at hwindow
  · next hbase =>
      rw [List.length_take, List.length_drop, BitVec.toNat_sub_of_le hbase] at hwindow
      rw [BitVec.le_def] at hbase
      rw [haddr]
      omega
  · exact absurd rfl hwindow

theorem image_opcode {base pc : U64} {image : Bytes} {insn : Instruction}
    (h : fetch smallDecoder (imageReader base image) pc = some insn) :
    (insn.flow = .jump → 0xEB ∈ image) ∧ (insn.flow = .condJump → 0x75 ∈ image) ∧
      (insn.flow = .call → 0xE8 ∈ image) := by
  have hwindow : ∀ b ∈ (imageReader base image).read pc kReadWindow, b ∈ image := by
    intro b hb
    simp only [imageReader] at hb
    split at hb
    · exact List.mem_of_mem_drop (List.mem_of_mem_take hb)
    · cases hb
  obtain ⟨hjump, hcond, hcall⟩ := smallDecoder_opcode (decodeOne_of_fetch h).2
  exact ⟨fun hflow => hwindow _ (hjump hflow), fun hflow => hwindow _ (hcond hflow),
    fun hflow => hwindow _ (hcall hflow)⟩

/-- `0x1000: jne 0x1004; call 0x1005; nop; ret`. -/
def smallImage : Bytes := [0x75, 0x02, 0xE8, 0x01, 0x90, 0xC3]

theorem small_fetch_end : ∀ pc insn,
    fetch smallDecoder (imageReader 0x1000 smallImage) pc = some insn →
      insn.address.toNat + insn.length.toNat < 2 ^ 64 :=
  image_fetch_end (by decide)

theorem build_canonical_small : ∃ bound fn callees xrefs,
    (∀ fuel ≥ bound, build smallDecoder (imageReader 0x1000 smallImage) fuel 0x1000 [] =
      some (fn, callees, xrefs)) ∧
    CanonicalFunction (fetch smallDecoder (imageReader 0x1000 smallImage)) 0x1000 fn :=
  build_canonical smallDecoder_lawful small_fetch_end 0x1000 []

end Irida.Analysis
