import Irida.Analysis.References
import Mathlib.Algebra.BigOperators.Intervals
import Mathlib.Data.Finset.NatAntidiagonal

/-!
# How the blocks of a function share its bytes

The blocks of a canonical function partition its instructions and its bytes exactly
as far as its instructions do not overlap.  Where two of them share a byte, both are
listed, and their blocks share it too; the streams of such code may meet
again, and the instructions from there on belong to both.

The argument goes backwards: an instruction in two blocks has a predecessor in both, and the
two predecessors end at the same byte, so that they are one instruction again
(`eq_of_shared`), until one of the blocks starts.
-/

namespace Irida.Analysis

open Disasm

/-- The bytes of an instruction. -/
def occupied (insn : Instruction) : Finset ℕ :=
  Finset.Ico insn.address.toNat (insn.address.toNat + insn.length.toNat)

/-- The bytes `[addr, addr + size)` of a block. -/
def BasicBlock.bytes (bb : BasicBlock) : Finset ℕ :=
  Finset.Ico bb.addr.toNat (bb.addr.toNat + bb.size.toNat)

/-- The bytes that the blocks of a function cover. -/
def Function.bytes (fn : Function) : Finset ℕ :=
  fn.blocks.toFinset.biUnion BasicBlock.bytes

/-- No two of the instructions of a function share a byte. -/
def NoOverlap (fetch : U64 → Option Instruction) (entry : U64) : Prop :=
  ∀ a b insn insn', Reached fetch entry a → Reached fetch entry b → fetch a = some insn →
    fetch b = some insn' → a ≠ b → Disjoint (occupied insn) (occupied insn')

section Chains

variable {fetch : U64 → Option Instruction} {a : U64} {insns : List Instruction} {exit : Exit}

theorem Chain.exists_pred (hplaced : WellPlaced fetch) (h : Chain fetch a insns exit)
    {insn : Instruction} (hinsn : insn ∈ insns) :
    insn.address = a ∨ ∃ pred ∈ insns, pred.next = insn.address := by
  induction h with
  | dead _ | cut => simp at hinsn
  | jump hfetch _ | condJump hfetch _ | ret hfetch _ =>
      obtain rfl := List.mem_singleton.mp hinsn
      exact Or.inl (hplaced.address_eq hfetch)
  | @more a first insns exit hfetch _ _ ih =>
      rcases List.mem_cons.mp hinsn with rfl | hinsn
      · exact Or.inl (hplaced.address_eq hfetch)
      · refine Or.inr ?_
        rcases ih hinsn with haddr | ⟨pred, hpred, hnext⟩
        · exact ⟨first, List.mem_cons_self .., haddr.symm⟩
        · exact ⟨pred, List.mem_cons_of_mem _ hpred, hnext⟩

theorem Chain.mem_bytes_iff (hplaced : WellPlaced fetch) (h : Chain fetch a insns exit) {x : ℕ} :
    (a.toNat ≤ x ∧ x < a.toNat + natSize insns) ↔ ∃ insn ∈ insns, x ∈ occupied insn := by
  induction h with
  | dead _ | cut => simp
  | jump hfetch _ | condJump hfetch _ | ret hfetch _ =>
      simp [occupied, hplaced.address_eq hfetch]
  | @more a first insns exit hfetch _ _ ih =>
      have hnext := Instruction.toNat_next (hplaced.end_lt hfetch)
      have haddr := hplaced.address_eq hfetch
      rw [haddr] at hnext
      rw [List.exists_mem_cons_iff, ← ih, natSize_cons, hnext, occupied, Finset.mem_Ico, haddr]
      omega

/-- The instructions of a chain do not overlap. -/
theorem Chain.disjoint (hplaced : WellPlaced fetch) (h : Chain fetch a insns exit) :
    ∀ insn ∈ insns, ∀ insn' ∈ insns, insn.address ≠ insn'.address →
      Disjoint (occupied insn) (occupied insn') := by
  have hlt : insns.Pairwise fun earlier later =>
      earlier.address.toNat + earlier.length.toNat ≤ later.address.toNat := by
    induction h with
    | dead _ | cut => exact List.Pairwise.nil
    | jump _ _ | condJump _ _ | ret _ _ => exact List.pairwise_singleton _ _
    | @more a insn insns exit hfetch _ hrest ih =>
        refine List.pairwise_cons.mpr ⟨fun later hlater => ?_, ih⟩
        rw [← Instruction.toNat_next (hplaced.end_lt hfetch)]
        exact ((hrest.bounds hplaced).2 later hlater).1
  have hdisjoint : insns.Pairwise fun insn insn' => Disjoint (occupied insn) (occupied insn') := by
    refine hlt.imp fun hle => Finset.disjoint_left.mpr fun x hx hx' => ?_
    simp only [occupied, Finset.mem_Ico] at hx hx'
    omega
  have : Std.Symm fun insn insn' => Disjoint (occupied insn) (occupied insn') :=
    ⟨fun _ _ h => h.symm⟩
  intro insn hinsn insn' hinsn' hne
  exact hdisjoint.forall hinsn hinsn' fun heq => hne (heq ▸ rfl)

end Chains

namespace CanonicalBlock

variable {fetch : U64 → Option Instruction} {leader : U64 → Prop} {bb : BasicBlock}
  {insns : List Instruction} {exit : Exit}

/-- Only the first instruction of a canonical block is a leader. -/
theorem address_eq_of_leader (hplaced : WellPlaced fetch)
    (h : CanonicalBlock fetch leader bb insns exit) {insn : Instruction} (hinsn : insn ∈ insns)
    (hleader : leader insn.address) : insn.address = bb.addr := by
  by_contra hne
  exact (h.barrier hplaced).1 insn hinsn ⟨hleader, hne⟩

theorem mem_bytes_iff (hplaced : WellPlaced fetch)
    (h : CanonicalBlock fetch leader bb insns exit) {x : ℕ} :
    x ∈ bb.bytes ↔ ∃ insn ∈ insns, x ∈ occupied insn := by
  have hsize : bb.size.toNat = natSize insns := by
    rw [h.size]
    exact h.chain.toNat_sizeOf hplaced
  rw [← h.chain.mem_bytes_iff hplaced, BasicBlock.bytes, Finset.mem_Ico, hsize]

end CanonicalBlock

namespace CanonicalFunction

variable {fetch : U64 → Option Instruction} {entry : U64} {fn : Function}

theorem exists_block (hplaced : WellPlaced fetch) (h : CanonicalFunction fetch entry fn) {a : U64}
    (ha : Reached fetch entry a) : ∃ bb ∈ fn.blocks, ∃ insns exit,
      CanonicalBlock fetch (Leader fetch entry) bb insns exit ∧
      ∃ insn ∈ insns, insn.address = a := by
  have hleader : ∀ l, Leader fetch entry l → (fetch l).isSome → ∃ bb ∈ fn.blocks, ∃ insns exit,
      CanonicalBlock fetch (Leader fetch entry) bb insns exit ∧
      ∃ insn ∈ insns, insn.address = l := by
    intro l hl hdec
    obtain ⟨bb, hbb, rfl⟩ := (h.mem_addr_iff l).mpr hl
    obtain ⟨insns, exit, hblock⟩ := h.blocks bb hbb
    exact ⟨bb, hbb, insns, exit, hblock,
      hblock.chain.exists_head hplaced.toPlaced hdec fun hcut => (hblock.cut hcut).2⟩
  induction ha with
  | entry hdec => exact hleader entry .entry hdec
  | @succ a b _ hsucc hdec ih =>
      obtain ⟨bb, hbb, insns, exit, hblock, insn, hinsn, rfl⟩ := ih
      rcases hblock.chain.succ_mem hplaced.toPlaced hinsn hsucc with
        ⟨other, hother, haddr⟩ | hnew | hcut | hnone
      · exact ⟨bb, hbb, insns, exit, hblock, other, hother, haddr⟩
      · have hstart : (fetch bb.addr).isSome → Reached fetch entry bb.addr :=
          ((h.mem_addr_iff bb.addr).mp ⟨bb, hbb, rfl⟩).reached
        exact hleader b (hblock.chain.leader_of_mem_newLeaders hstart b hnew) hdec
      · exact hleader b (hblock.cut hcut).1 hdec
      · simp [hnone] at hdec

theorem reached (hplaced : WellPlaced fetch) (h : CanonicalFunction fetch entry fn)
    {bb : BasicBlock} (hbb : bb ∈ fn.blocks) {insns : List Instruction} {exit : Exit}
    (hblock : CanonicalBlock fetch (Leader fetch entry) bb insns exit) :
    ∀ insn ∈ insns, Reached fetch entry insn.address :=
  hblock.chain.reached hplaced.toPlaced ((h.mem_addr_iff bb.addr).mp ⟨bb, hbb, rfl⟩).reached

/-- **Without overlaps, an instruction is in one block only.** -/
theorem eq_of_shared (hplaced : WellPlaced fetch) (h : CanonicalFunction fetch entry fn)
    (hfree : NoOverlap fetch entry) {bb bb' : BasicBlock} (hbb : bb ∈ fn.blocks)
    (hbb' : bb' ∈ fn.blocks) {insns insns' : List Instruction} {exit exit' : Exit}
    (hblock : CanonicalBlock fetch (Leader fetch entry) bb insns exit)
    (hblock' : CanonicalBlock fetch (Leader fetch entry) bb' insns' exit') :
    ∀ insn ∈ insns, ∀ insn' ∈ insns', insn.address = insn'.address → bb.addr = bb'.addr := by
  intro insn hinsn insn' hinsn' haddr
  -- by induction on the address, backwards along both chains up to the start of one of them
  induction hn : insn.address.toNat using Nat.strong_induction_on generalizing insn insn' with
  | _ n ih =>
      have hleader := (h.mem_addr_iff bb.addr).mp ⟨bb, hbb, rfl⟩
      have hleader' := (h.mem_addr_iff bb'.addr).mp ⟨bb', hbb', rfl⟩
      rcases hblock.chain.exists_pred hplaced hinsn with hstart | ⟨pred, hpred, hnext⟩
      · have hfirst := hblock'.address_eq_of_leader hplaced hinsn' (by rwa [← haddr, hstart])
        rw [← hstart, haddr, hfirst]
      rcases hblock'.chain.exists_pred hplaced hinsn' with hstart' | ⟨pred', hpred', hnext'⟩
      · have hfirst := hblock.address_eq_of_leader hplaced hinsn (by rwa [haddr, hstart'])
        rw [← hfirst, haddr, hstart']
      -- both predecessors end where the instruction starts
      have hfetch := hblock.chain.fetch_eq hplaced.toPlaced pred hpred
      have hfetch' := hblock'.chain.fetch_eq hplaced.toPlaced pred' hpred'
      have hend := Instruction.toNat_next (hplaced.end_lt hfetch)
      have hend' := Instruction.toNat_next (hplaced.end_lt hfetch')
      have hpos := hplaced.length_pos hfetch
      have hpos' := hplaced.length_pos hfetch'
      rw [hnext] at hend
      rw [hnext', ← haddr] at hend'
      have hsame : pred.address = pred'.address := by
        by_contra hne
        have hdisjoint := hfree _ _ pred pred' (h.reached hplaced hbb hblock pred hpred)
          (h.reached hplaced hbb' hblock' pred' hpred') hfetch hfetch' hne
        have hlast : insn.address.toNat - 1 ∈ occupied pred := by
          rw [occupied, Finset.mem_Ico]
          omega
        have hlast' : insn.address.toNat - 1 ∈ occupied pred' := by
          rw [occupied, Finset.mem_Ico]
          omega
        exact Finset.disjoint_left.mp hdisjoint hlast hlast'
      exact ih _ (by omega) pred hpred pred' hpred' hsame rfl

theorem eq_of_addr_eq (h : CanonicalFunction fetch entry fn) {bb bb' : BasicBlock}
    (hbb : bb ∈ fn.blocks) (hbb' : bb' ∈ fn.blocks) (haddr : bb.addr = bb'.addr) : bb = bb' := by
  have hne : fn.blocks.Pairwise fun bb bb' => bb.addr ≠ bb'.addr :=
    h.sorted.imp fun hlt => BitVec.ne_of_lt hlt
  have : Std.Symm fun bb bb' : BasicBlock => bb.addr ≠ bb'.addr := ⟨fun _ _ hne => hne.symm⟩
  by_contra hdistinct
  exact hne.forall hbb hbb' hdistinct haddr

theorem instrAddrs_disjoint (hplaced : WellPlaced fetch) (h : CanonicalFunction fetch entry fn)
    (hfree : NoOverlap fetch entry) {bb bb' : BasicBlock} (hbb : bb ∈ fn.blocks)
    (hbb' : bb' ∈ fn.blocks) (hne : bb ≠ bb') : ∀ a ∈ bb.instrAddrs, a ∉ bb'.instrAddrs := by
  intro a ha ha'
  obtain ⟨insns, exit, hblock⟩ := h.blocks bb hbb
  obtain ⟨insns', exit', hblock'⟩ := h.blocks bb' hbb'
  rw [hblock.instrAddrs] at ha
  rw [hblock'.instrAddrs] at ha'
  obtain ⟨insn, hinsn, rfl⟩ := List.mem_map.mp ha
  obtain ⟨insn', hinsn', haddr⟩ := List.mem_map.mp ha'
  exact hne (h.eq_of_addr_eq hbb hbb'
    (h.eq_of_shared hplaced hfree hbb hbb' hblock hblock' insn hinsn insn' hinsn' haddr.symm))

/-- Without overlaps, no byte is in two blocks. -/
theorem bytes_disjoint (hplaced : WellPlaced fetch) (h : CanonicalFunction fetch entry fn)
    (hfree : NoOverlap fetch entry) {bb bb' : BasicBlock} (hbb : bb ∈ fn.blocks)
    (hbb' : bb' ∈ fn.blocks) (hne : bb ≠ bb') : Disjoint bb.bytes bb'.bytes := by
  obtain ⟨insns, exit, hblock⟩ := h.blocks bb hbb
  obtain ⟨insns', exit', hblock'⟩ := h.blocks bb' hbb'
  rw [Finset.disjoint_left]
  intro x hx hx'
  obtain ⟨insn, hinsn, hx⟩ := (hblock.mem_bytes_iff hplaced).mp hx
  obtain ⟨insn', hinsn', hx'⟩ := (hblock'.mem_bytes_iff hplaced).mp hx'
  refine hne (h.eq_of_addr_eq hbb hbb'
    (h.eq_of_shared hplaced hfree hbb hbb' hblock hblock' insn hinsn insn' hinsn' ?_))
  by_contra haddr
  exact Finset.disjoint_left.mp (hfree _ _ insn insn' (h.reached hplaced hbb hblock insn hinsn)
    (h.reached hplaced hbb' hblock' insn' hinsn')
    (hblock.chain.fetch_eq hplaced.toPlaced insn hinsn)
    (hblock'.chain.fetch_eq hplaced.toPlaced insn' hinsn') haddr) hx hx'

/-- **The byte ranges are disjoint exactly without overlaps.** -/
theorem bytes_disjoint_iff (hplaced : WellPlaced fetch) (h : CanonicalFunction fetch entry fn) :
    (∀ bb ∈ fn.blocks, ∀ bb' ∈ fn.blocks, bb ≠ bb' → Disjoint bb.bytes bb'.bytes) ↔
      NoOverlap fetch entry := by
  refine ⟨fun hdisjoint a b insn insn' ha hb hinsn hinsn' hne => ?_,
    fun hfree bb hbb bb' hbb' hne => h.bytes_disjoint hplaced hfree hbb hbb' hne⟩
  obtain ⟨bb, hbb, insns, exit, hblock, other, hother, rfl⟩ := h.exists_block hplaced ha
  obtain ⟨bb', hbb', insns', exit', hblock', other', hother', rfl⟩ := h.exists_block hplaced hb
  obtain rfl := Option.some.inj
    ((hblock.chain.fetch_eq hplaced.toPlaced other hother).symm.trans hinsn)
  obtain rfl := Option.some.inj
    ((hblock'.chain.fetch_eq hplaced.toPlaced other' hother').symm.trans hinsn')
  by_cases hsame : bb = bb'
  · subst hsame
    obtain rfl := hblock.unique hplaced hblock' rfl
    exact hblock.chain.disjoint hplaced other hother other' hother' hne
  · rw [Finset.disjoint_left]
    intro x hx hx'
    exact Finset.disjoint_left.mp (hdisjoint bb hbb bb' hbb' hsame)
      ((hblock.mem_bytes_iff hplaced).mpr ⟨other, hother, hx⟩)
      ((hblock'.mem_bytes_iff hplaced).mpr ⟨other', hother', hx'⟩)

/-! ## `Function::size` -/

/-- Without overlaps, the sizes of the blocks add up to the number of bytes that they cover. -/
theorem card_bytes (hplaced : WellPlaced fetch) (h : CanonicalFunction fetch entry fn)
    (hfree : NoOverlap fetch entry) :
    fn.bytes.card = (fn.blocks.map fun bb => bb.size.toNat).sum := by
  have hnodup : fn.blocks.Nodup := by
    refine h.sorted.imp fun {bb bb'} hlt => ?_
    rintro rfl
    exact BitVec.lt_irrefl _ hlt
  rw [Function.bytes, Finset.card_biUnion, ← List.sum_toFinset _ hnodup]
  · refine Finset.sum_congr rfl fun bb _ => ?_
    rw [BasicBlock.bytes, Nat.card_Ico, Nat.add_sub_cancel_left]
  · intro bb hbb bb' hbb' hne
    exact h.bytes_disjoint hplaced hfree (List.mem_toFinset.mp hbb) (List.mem_toFinset.mp hbb') hne

/-- The last byte of the address space is in no block. -/
theorem card_bytes_lt (hplaced : WellPlaced fetch) (h : CanonicalFunction fetch entry fn) :
    fn.bytes.card < 2 ^ 64 := by
  have hsub : fn.bytes ⊆ Finset.range (2 ^ 64 - 1) := by
    intro x hx
    obtain ⟨bb, hbb, hx⟩ := Finset.mem_biUnion.mp hx
    obtain ⟨insns, exit, hblock⟩ := h.blocks bb (List.mem_toFinset.mp hbb)
    obtain ⟨insn, hinsn, hx⟩ := (hblock.mem_bytes_iff hplaced).mp hx
    have hend := hplaced.end_lt (hblock.chain.fetch_eq hplaced.toPlaced insn hinsn)
    rw [occupied, Finset.mem_Ico] at hx
    rw [Finset.mem_range]
    omega
  calc fn.bytes.card
    _ ≤ (Finset.range (2 ^ 64 - 1)).card := Finset.card_le_card hsub
    _ = 2 ^ 64 - 1 := Finset.card_range _
    _ < 2 ^ 64 := by omega

end CanonicalFunction

theorem toNat_sum_size {blocks : List BasicBlock}
    (h : (blocks.map fun bb => bb.size.toNat).sum < 2 ^ 64) :
    (blocks.map BasicBlock.size).sum.toNat = (blocks.map fun bb => bb.size.toNat).sum := by
  induction blocks with
  | nil => rfl
  | cons bb blocks ih =>
      rw [List.map_cons, List.sum_cons] at h
      rw [List.map_cons, List.sum_cons, List.map_cons, List.sum_cons, BitVec.toNat_add,
        ih (by omega), Nat.mod_eq_of_lt h]

private theorem foldl_size (blocks : List BasicBlock) (size : U64) :
    blocks.foldl (fun size bb => size + bb.size) size =
      size + (blocks.map BasicBlock.size).sum := by
  induction blocks generalizing size with
  | nil => simp
  | cons bb blocks ih => rw [List.foldl_cons, ih, List.map_cons, List.sum_cons, add_assoc]

theorem size_of_build {disasm : Disassembler} {reader : ByteReader} {fuel : ℕ} {entry : U64}
    {old xrefs : List Xref} {fn : Function} {callees : List U64}
    (h : build disasm reader fuel entry old = some (fn, callees, xrefs)) :
    fn.size = (fn.blocks.map BasicBlock.size).sum := by
  obtain ⟨b, -, hfinal, -, -⟩ := build_eq_some.mp h
  obtain ⟨blocks, -, rfl⟩ := finalize_eq_some.mp hfinal
  dsimp only
  rw [((List.mergeSort_perm (blocks.toList.map Prod.snd) _).map BasicBlock.size).sum_eq,
    foldl_size, zero_add]

/-- **How the blocks of a function partition its code**: their byte ranges are disjoint
exactly if no two of its instructions overlap, and then no instruction is in two blocks and
the size of the function is the number of bytes that it covers. -/
theorem analyze_partition {disasm : Disassembler} {reader : ByteReader}
    (hlawful : disasm.Lawful)
    (hend : ∀ pc insn, fetch disasm reader pc = some insn →
      insn.address.toNat + insn.length.toNat < 2 ^ 64)
    (symbolLookup : Option (U64 → Option String)) (entryPoints : List U64) :
    ∃ bound result,
      (∀ fuel ≥ bound, analyze disasm reader symbolLookup fuel entryPoints = some result) ∧
      ∀ fn ∈ result.functions,
        ((∀ bb ∈ fn.blocks, ∀ bb' ∈ fn.blocks, bb ≠ bb' → Disjoint bb.bytes bb'.bytes) ↔
          NoOverlap (fetch disasm reader) fn.addr) ∧
        (NoOverlap (fetch disasm reader) fn.addr →
          (∀ bb ∈ fn.blocks, ∀ bb' ∈ fn.blocks, bb ≠ bb' →
            ∀ a ∈ bb.instrAddrs, a ∉ bb'.instrAddrs) ∧
          fn.size.toNat = fn.bytes.card) := by
  have hplaced := wellPlaced_fetch hlawful hend
  obtain ⟨built, hbuilt⟩ := exists_built hplaced
  obtain ⟨bound, order, -, hmem, hrun⟩ :=
    analyze_assembled hplaced hbuilt symbolLookup entryPoints
  refine ⟨bound, _, hrun, fun fn hfn => ?_⟩
  obtain ⟨e, he, rfl⟩ := List.mem_map.mp (List.mem_mergeSort.mp hfn)
  have hbuilt := hbuilt e
  have hcanon := hbuilt.canonical.finished symbolLookup
  have haddr : (finished symbolLookup e (built e)).addr = e := hcanon.addr
  rw [haddr]
  refine ⟨hcanon.bytes_disjoint_iff hplaced, fun hfree => ⟨fun bb hbb bb' hbb' hne =>
    hcanon.instrAddrs_disjoint hplaced hfree hbb hbb' hne, ?_⟩⟩
  obtain ⟨enough, hbuild⟩ := hbuilt.run
  have hcard := hcanon.card_bytes hplaced hfree
  -- the sizes are added as words, and their sum does not wrap around
  calc (finished symbolLookup e (built e)).size.toNat
    _ = ((built e).1.blocks.map BasicBlock.size).sum.toNat := by
        rw [← size_of_build (hbuild enough (le_refl _))]
        rfl
    _ = ((finished symbolLookup e (built e)).blocks.map fun bb => bb.size.toNat).sum :=
        toNat_sum_size (hcard ▸ hcanon.card_bytes_lt hplaced)
    _ = (finished symbolLookup e (built e)).bytes.card := hcard.symm

theorem analyze_partition_small : ∃ bound result,
    (∀ fuel ≥ bound, analyze smallDecoder (imageReader 0x1000 smallImage) none fuel [0x1000] =
      some result) ∧
    ∀ fn ∈ result.functions,
      ((∀ bb ∈ fn.blocks, ∀ bb' ∈ fn.blocks, bb ≠ bb' → Disjoint bb.bytes bb'.bytes) ↔
        NoOverlap (fetch smallDecoder (imageReader 0x1000 smallImage)) fn.addr) ∧
      (NoOverlap (fetch smallDecoder (imageReader 0x1000 smallImage)) fn.addr →
        (∀ bb ∈ fn.blocks, ∀ bb' ∈ fn.blocks, bb ≠ bb' →
          ∀ a ∈ bb.instrAddrs, a ∉ bb'.instrAddrs) ∧
        fn.size.toNat = fn.bytes.card) :=
  analyze_partition smallDecoder_lawful small_fetch_end none [0x1000]

/-! ## Code that overlaps, and code that wraps around -/

/-- `0x1000: jne 0x1003; call 0xF94; ret`, where a `nop` at `0x1003` is the last
byte of the call. -/
def overlapImage : Bytes := [0x75, 0x01, 0xE8, 0x90, 0xC3]

/-- Four `nop`s at the end of the address space, and one at its start, before a jump back to
the third. -/
def wrapReader : ByteReader where
  read addr n :=
    if 0xFFFFFFFFFFFFFFFC ≤ addr then List.replicate (min (2 ^ 64 - addr.toNat) n) 0x90
    else (([0x90, 0xEB, 0xFB] : Bytes).drop addr.toNat).take n
  length_le addr n := by
    split
    · rw [List.length_replicate]
      exact Nat.min_le_right _ n
    · exact List.length_take_le n _

/-- What `build` returns once its two loops are done. -/
theorem build_of_loops {disasm : Disassembler} {reader : ByteReader} {fuel : ℕ} {entry : U64}
    {callees : List U64} {blocks : List BasicBlock}
    (h : ((Worklist.run (visitBlock disasm reader fuel) fuel
        ⟨[entry], {entry}, { leaders := (∅ : Std.ExtTreeSet U64).insert entry }⟩).map fun b =>
          (b.callees, (splitLoop b.leaders fuel b.blocks).map fun m => m.toList.map Prod.snd)) =
      some (callees, some blocks)) :
    ∃ fn xrefs, build disasm reader fuel entry [] = some (fn, callees, xrefs) ∧
      fn.addr = entry ∧ fn.blocks.Perm blocks := by
  obtain ⟨b, hrun, hb⟩ := Option.map_eq_some_iff.mp h
  obtain ⟨rfl, hsplit⟩ := Prod.mk.inj hb
  obtain ⟨m, hloop, rfl⟩ := Option.map_eq_some_iff.mp hsplit
  have hbuild : build disasm reader fuel entry [] = some
      ({ addr := entry
         name := defaultName entry
         size := (m.toList.map Prod.snd).foldl (fun size bb => size + bb.size) 0
         blocks := (m.toList.map Prod.snd).mergeSort fun a b => a.addr ≤ b.addr },
        b.callees, b.xrefs) := by
    unfold build
    dsimp only
    rw [hrun]
    simp only [finalize, hloop]
  exact ⟨_, _, hbuild, rfl, List.mergeSort_perm _ _⟩

private theorem wrap_loops :
    ((Worklist.run (visitBlock smallDecoder wrapReader 10) 10
        ⟨[0xFFFFFFFFFFFFFFFC], {0xFFFFFFFFFFFFFFFC},
          { leaders := (∅ : Std.ExtTreeSet U64).insert 0xFFFFFFFFFFFFFFFC }⟩).map fun b =>
        (b.callees, (splitLoop b.leaders 10 b.blocks).map fun m => m.toList.map Prod.snd)) =
      some ([], some
        [{ addr := 0xFFFFFFFFFFFFFFFC, size := 7, jump := 0xFFFFFFFFFFFFFFFE, fail := 0
           instrAddrs := [0xFFFFFFFFFFFFFFFC, 0xFFFFFFFFFFFFFFFD, 0xFFFFFFFFFFFFFFFE,
             0xFFFFFFFFFFFFFFFF, 0, 1] },
         { addr := 0xFFFFFFFFFFFFFFFE, size := 5, jump := 0xFFFFFFFFFFFFFFFE, fail := 0
           instrAddrs := [0xFFFFFFFFFFFFFFFE, 0xFFFFFFFFFFFFFFFF, 0, 1] }]) := by
  decide +kernel

/-- Its instructions: none of them overlaps another, but one ends where the addresses
start again. -/
def wrapInsns : List Instruction :=
  [0xFFFFFFFFFFFFFFFC, 0xFFFFFFFFFFFFFFFD, 0xFFFFFFFFFFFFFFFE, 0xFFFFFFFFFFFFFFFF, 0].map
      (fun a => { address := a, length := 1 }) ++
    [{ address := 1, length := 2, flow := .jump, branchTarget := 0xFFFFFFFFFFFFFFFE }]

private theorem wrap_reached {a : U64}
    (h : Reached (fetch smallDecoder wrapReader) 0xFFFFFFFFFFFFFFFC a) :
    ∃ insn ∈ wrapInsns, insn.address = a := by
  have hfetch : ∀ insn ∈ wrapInsns, fetch smallDecoder wrapReader insn.address = some insn := by
    decide +kernel
  have hnext : ∀ insn ∈ wrapInsns, insn.flow = .sequential →
      ∃ other ∈ wrapInsns, other.address = insn.next := by decide +kernel
  have htarget : ∀ insn ∈ wrapInsns, insn.flow = .jump →
      ∃ other ∈ wrapInsns, other.address = insn.branchTarget := by decide +kernel
  have hflow : ∀ insn ∈ wrapInsns, insn.flow = .sequential ∨ insn.flow = .jump := by
    decide +kernel
  induction h with
  | entry _ => exact ⟨_, List.mem_cons_self .., rfl⟩
  | succ _ hsucc _ ih =>
      obtain ⟨insn, hinsn, rfl⟩ := ih
      rcases hsucc.of_fetch (hfetch insn hinsn) with ⟨rfl, hfalls⟩ | ⟨rfl, hbr⟩ <;>
        rcases hflow insn hinsn with hseq | hjump
      · exact hnext insn hinsn hseq
      · simp [FallsThrough, hjump] at hfalls
      · simp [Branches, hseq] at hbr
      · exact htarget insn hinsn hjump

private theorem wrap_noOverlap :
    NoOverlap (fetch smallDecoder wrapReader) 0xFFFFFFFFFFFFFFFC := by
  have hfetch : ∀ insn ∈ wrapInsns, fetch smallDecoder wrapReader insn.address = some insn := by
    decide +kernel
  have hdisjoint : ∀ insn ∈ wrapInsns, ∀ insn' ∈ wrapInsns, insn.address ≠ insn'.address →
      Disjoint (occupied insn) (occupied insn') := by decide +kernel
  intro a b insn insn' ha hb hinsn hinsn' hne
  obtain ⟨other, hother, rfl⟩ := wrap_reached ha
  obtain ⟨other', hother', rfl⟩ := wrap_reached hb
  obtain rfl := Option.some.inj ((hfetch other hother).symm.trans hinsn)
  obtain rfl := Option.some.inj ((hfetch other' hother').symm.trans hinsn')
  exact hdisjoint other hother other' hother' hne

private theorem wrap_analyze : ∃ fuel result,
    analyze smallDecoder wrapReader none fuel [0xFFFFFFFFFFFFFFFC] = some result ∧
    ∃ fn ∈ result.functions, fn.addr = 0xFFFFFFFFFFFFFFFC ∧ ∃ bb ∈ fn.blocks, ∃ bb' ∈ fn.blocks,
      bb ≠ bb' ∧ ∃ a ∈ bb.instrAddrs, a ∈ bb'.instrAddrs := by
  obtain ⟨fn, xrefs, hbuild, haddr, hperm⟩ := build_of_loops wrap_loops
  have hne : fn.blocks ≠ [] := fun hnil => by
    rw [hnil] at hperm
    exact absurd hperm.nil_eq (by simp)
  have hvisit : visitEntry smallDecoder wrapReader none 10 0xFFFFFFFFFFFFFFFC {} =
      some (⟨{0xFFFFFFFFFFFFFFFC}, ⟨[{ fn with callees := [] }], xrefs⟩⟩, []) := by
    have hnew : ¬ ((0xFFFFFFFFFFFFFFFC : U64) = 0 ∨
        (0xFFFFFFFFFFFFFFFC : U64) ∈ ({} : AnalyzeState).analyzed) := by decide
    rw [visitEntry, if_neg hnew, hbuild]
    simp [hne, sortUnique, functionName]
  have hrun : analyze smallDecoder wrapReader none 10 [0xFFFFFFFFFFFFFFFC] =
      some ⟨[{ fn with callees := [] }], xrefs⟩ := by
    simp only [analyze, Worklist.run, hvisit, Worklist.State.enqueueAll_nil,
      List.mergeSort_singleton]
  refine ⟨10, _, hrun, _, List.mem_singleton_self _, haddr, ?_⟩
  refine ⟨_, hperm.mem_iff.mpr (List.mem_cons_self ..), _,
    hperm.mem_iff.mpr (List.mem_cons_of_mem _ (List.mem_cons_self ..)), by decide, ?_⟩
  exact ⟨0xFFFFFFFFFFFFFFFE, by decide, by decide⟩

private theorem overlap_analyze : ∃ bound result,
    (∀ fuel ≥ bound, analyze smallDecoder (imageReader 0x1000 overlapImage) none fuel [0x1000] =
      some result) ∧
    ∃ fn ∈ result.functions, fn.addr = 0x1000 ∧ ∃ bb ∈ fn.blocks, ∃ bb' ∈ fn.blocks,
      bb ≠ bb' ∧ ¬ Disjoint bb.bytes bb'.bytes := by
  have hplaced := wellPlaced_fetch smallDecoder_lawful
    (@image_fetch_end 0x1000 overlapImage (by decide))
  obtain ⟨built, hbuilt⟩ := exists_built hplaced
  obtain ⟨bound, order, -, hmem, hrun⟩ := analyze_assembled hplaced hbuilt none [0x1000]
  have hentry : (0x1000 : U64) ∈ order := (hmem 0x1000).mpr (.entry (by decide) (by decide))
  have hcanon := (hbuilt 0x1000).canonical.finished none
  refine ⟨bound, _, hrun, _, List.mem_mergeSort.mpr (List.mem_map_of_mem hentry), hcanon.addr, ?_⟩
  by_contra hnone
  push Not at hnone
  have hfree := (hcanon.bytes_disjoint_iff hplaced).mp fun bb hbb bb' hbb' hne =>
    hnone bb hbb bb' hbb' hne
  -- the branch has the call behind it and the last byte of the call as its target
  have hfirst : fetch smallDecoder (imageReader 0x1000 overlapImage) 0x1000 = some
      { address := 0x1000, length := 2, flow := .condJump, branchTarget := 0x1003 } := by
    decide +kernel
  have hcall : fetch smallDecoder (imageReader 0x1000 overlapImage) 0x1002 = some
      { address := 0x1002, length := 2, flow := .call, branchTarget := 0xF94 } := by
    decide +kernel
  have hnop : fetch smallDecoder (imageReader 0x1000 overlapImage) 0x1003 = some
      { address := 0x1003, length := 1 } := by decide +kernel
  have hreached : Reached (fetch smallDecoder (imageReader 0x1000 overlapImage)) 0x1000 0x1000 :=
    .entry (by rw [hfirst]; rfl)
  have hnext : Reached (fetch smallDecoder (imageReader 0x1000 overlapImage)) 0x1000 0x1002 :=
    hreached.succ (.next hfirst (Or.inr rfl)) (by rw [hcall]; rfl)
  have htarget : Reached (fetch smallDecoder (imageReader 0x1000 overlapImage)) 0x1000 0x1003 :=
    hreached.succ (.target hfirst ⟨Or.inr rfl, by decide⟩) (by rw [hnop]; rfl)
  exact absurd (hfree _ _ _ _ hnext htarget hcall hnop (by decide)) (by decide)

/-- **The blocks need not partition the code.**  Where two instructions overlap, so do the
blocks; and where a block ends beyond the address space, it is not cut at a leader, and its
instructions are in another block again. -/
theorem not_partition :
    (∃ bound result,
      (∀ fuel ≥ bound, analyze smallDecoder (imageReader 0x1000 overlapImage) none fuel [0x1000] =
        some result) ∧
      ∃ fn ∈ result.functions, fn.addr = 0x1000 ∧ ∃ bb ∈ fn.blocks, ∃ bb' ∈ fn.blocks,
        bb ≠ bb' ∧ ¬ Disjoint bb.bytes bb'.bytes) ∧
    NoOverlap (fetch smallDecoder wrapReader) 0xFFFFFFFFFFFFFFFC ∧
    ∃ fuel result, analyze smallDecoder wrapReader none fuel [0xFFFFFFFFFFFFFFFC] = some result ∧
      ∃ fn ∈ result.functions, fn.addr = 0xFFFFFFFFFFFFFFFC ∧ ∃ bb ∈ fn.blocks,
        ∃ bb' ∈ fn.blocks, bb ≠ bb' ∧ ∃ a ∈ bb.instrAddrs, a ∈ bb'.instrAddrs :=
  ⟨overlap_analyze, wrap_noOverlap, wrap_analyze⟩

end Irida.Analysis
