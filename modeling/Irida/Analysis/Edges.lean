import Irida.Analysis.Canonical
import Mathlib.Logic.Relation

/-!
# The edges between the blocks of a function

Every `jump` and `fail` edge of a block leads to a block of the same function, and every
block can be reached from the entry block along the edges.

Both are shown of a block map that satisfies `Cut` and whose leaders are those of the code,
and a split keeps such a map (`Cut.split`).  For the second one, every reachable
instruction is shown to lie in a block that the edges lead to (`Cut.exists_linked`), by induction
on how the instruction is reached: its successors are in the same block, or behind an edge of it.
-/

namespace Irida.Analysis

open Disasm

/-- An edge of a block, to a given address. -/
def BasicBlock.EdgeTo (bb : BasicBlock) (l : U64) : Prop :=
  l ≠ 0 ∧ (bb.jump = l ∨ bb.fail = l)

/-- One block of a list leads to another one. -/
def LeadsTo (blocks : List BasicBlock) (bb bb' : BasicBlock) : Prop :=
  bb' ∈ blocks ∧ bb.EdgeTo bb'.addr

/-- A block can be reached from the block at the entry along the edges. -/
def Linked (entry : U64) (blocks : List BasicBlock) (bb : BasicBlock) : Prop :=
  ∃ first ∈ blocks, first.addr = entry ∧ Relation.ReflTransGen (LeadsTo blocks) first bb

/-- The edges of the blocks stay within them, and lead from the entry to all of them. -/
structure Connected (entry : U64) (blocks : List BasicBlock) : Prop where
  closed : ∀ bb ∈ blocks, ∀ l, bb.EdgeTo l → ∃ bb' ∈ blocks, bb'.addr = l
  linked : ∀ bb ∈ blocks, Linked entry blocks bb

theorem Linked.tail {entry : U64} {blocks : List BasicBlock} {bb bb' : BasicBlock}
    (h : Linked entry blocks bb) (hstep : LeadsTo blocks bb bb') : Linked entry blocks bb' := by
  obtain ⟨first, hfirst, haddr, hpath⟩ := h
  exact ⟨first, hfirst, haddr, hpath.tail hstep⟩

theorem Connected.perm {entry : U64} {blocks blocks' : List BasicBlock}
    (h : Connected entry blocks) (hperm : blocks.Perm blocks') : Connected entry blocks' where
  closed bb hbb l hl := by
    obtain ⟨bb', hbb', haddr⟩ := h.closed bb (hperm.mem_iff.mpr hbb) l hl
    exact ⟨bb', hperm.mem_iff.mp hbb', haddr⟩
  linked bb hbb := by
    obtain ⟨first, hfirst, haddr, hpath⟩ := h.linked bb (hperm.mem_iff.mpr hbb)
    exact ⟨first, hperm.mem_iff.mp hfirst, haddr,
      Relation.ReflTransGen.mono
        (fun _ _ hstep => ⟨hperm.mem_iff.mp hstep.1, hstep.2⟩) _ _ hpath⟩

/-- One split of `finalize`: a block is cut at a leader that is a boundary inside it. -/
def Splits (leaders : Std.ExtTreeSet U64) (blocks blocks' : Std.ExtTreeMap U64 BasicBlock) :
    Prop :=
  ∃ key bb leader, blocks[key]? = some bb ∧ leader ∈ leaders ∧ bb.addr < leader ∧
    leader < bb.addr + bb.size ∧ isInstrBoundary bb leader ∧
    blocks' = splitBlock blocks key bb leader

/-- The edges of the block of a chain. -/
theorem edgeTo_blockOf {start l : U64} {insns : List Instruction} {exit : Exit} :
    (blockOf start insns exit).EdgeTo l ↔ l ≠ 0 ∧ (l ∈ exit.newLeaders ∨ exit = .cut l) := by
  rw [← Exit.mem_edges]
  simp only [BasicBlock.EdgeTo, blockOf, List.mem_filter, List.mem_cons, List.not_mem_nil, or_false,
    decide_eq_true_eq]
  rw [and_comm, eq_comm (a := l), eq_comm (a := l)]

namespace Cut

variable {fetch : U64 → Option Instruction} {leaders : Std.ExtTreeSet U64} {entry : U64}
  {blocks blocks' : Std.ExtTreeMap U64 BasicBlock}

theorem splits (hplaced : WellPlaced fetch) (h : Cut fetch leaders blocks)
    (hsplits : Relation.ReflTransGen (Splits leaders) blocks blocks') :
    Cut fetch leaders blocks' := by
  induction hsplits with
  | refl => exact h
  | tail _ hstep ih =>
      obtain ⟨key, bb, leader, hbb, hleader, hlow, -, hboundary, rfl⟩ := hstep
      exact (ih.split hplaced hbb hleader hlow (List.contains_iff_mem.mp hboundary)).1

theorem mem_toList (h : Cut fetch leaders blocks) {bb : BasicBlock} :
    bb ∈ blocks.toList.map Prod.snd ↔ blocks[bb.addr]? = some bb := by
  rw [mem_map_snd_toList]
  constructor
  · rintro ⟨l, hget⟩
    rwa [h.keyed l bb hget]
  · intro hget
    exact ⟨_, hget⟩

theorem exists_block (h : Cut fetch leaders blocks) {l : U64} (hl : l ∈ leaders) :
    ∃ bb ∈ blocks.toList.map Prod.snd, bb.addr = l ∧
      ∃ insns exit, ChainBlock fetch leaders l bb insns exit := by
  have hmem := (h.mem_iff l).mpr hl
  have hget := Std.ExtTreeMap.getElem?_eq_some_getElem hmem
  obtain ⟨insns, exit, hblock⟩ := h.chain l _ hget
  exact ⟨_, mem_map_snd_toList.mpr ⟨l, hget⟩, h.keyed l _ hget, insns, exit, hblock⟩

theorem exists_chain (h : Cut fetch leaders blocks) {bb : BasicBlock}
    (hbb : bb ∈ blocks.toList.map Prod.snd) :
    bb.addr ∈ leaders ∧ ∃ insns exit, ChainBlock fetch leaders bb.addr bb insns exit := by
  have hget := h.mem_toList.mp hbb
  refine ⟨(h.mem_iff _).mp ?_, h.chain _ bb hget⟩
  exact Std.ExtTreeMap.mem_iff_isSome_getElem?.mpr (by simp [hget])

theorem mem_leaders_of_edge (h : Cut fetch leaders blocks)
    (hleaders : ∀ l, l ∈ leaders ↔ Leader fetch entry l) {bb : BasicBlock} {l : U64}
    (hbb : bb ∈ blocks.toList.map Prod.snd) (hedge : bb.EdgeTo l) : l ∈ leaders := by
  obtain ⟨hstart, insns, exit, hblock⟩ := h.exists_chain hbb
  rw [hblock.eq, edgeTo_blockOf] at hedge
  rcases hedge.2 with hnew | hcut
  · have hreached := ((hleaders bb.addr).mp hstart).reached
    exact (hleaders l).mpr (hblock.chain.leader_of_mem_newLeaders hreached l hnew)
  · exact (hblock.cut_mem hcut).1

theorem linked_of_edge (h : Cut fetch leaders blocks)
    (hleaders : ∀ l, l ∈ leaders ↔ Leader fetch entry l) {bb : BasicBlock} {l : U64}
    (hbb : bb ∈ blocks.toList.map Prod.snd)
    (hlinked : Linked entry (blocks.toList.map Prod.snd) bb) (hedge : bb.EdgeTo l) :
    ∃ bb' ∈ blocks.toList.map Prod.snd, bb'.addr = l ∧
      Linked entry (blocks.toList.map Prod.snd) bb' ∧
      ∃ insns exit, ChainBlock fetch leaders l bb' insns exit := by
  obtain ⟨bb', hbb', rfl, hblock⟩ := h.exists_block (h.mem_leaders_of_edge hleaders hbb hedge)
  exact ⟨bb', hbb', rfl, hlinked.tail ⟨hbb', hedge⟩, hblock⟩

/-- What follows on an instruction of a linked block is in that block, or at an edge of it. -/
theorem edgeTo_of_succ (hplaced : WellPlaced fetch) {start b : U64} {bb : BasicBlock}
    {insns : List Instruction} {exit : Exit} {insn : Instruction}
    (hblock : ChainBlock fetch leaders start bb insns exit) (hinsn : insn ∈ insns)
    (hsucc : Succ fetch insn.address b) (hdec : (fetch b).isSome) :
    (∃ other ∈ insns, other.address = b) ∨ bb.EdgeTo b := by
  rw [hblock.eq, edgeTo_blockOf]
  rcases hblock.chain.succ_mem hplaced.toPlaced hinsn hsucc with hin | hnew | hcut | hnone
  · exact Or.inl hin
  · exact Or.inr ⟨hblock.chain.ne_zero_of_mem_newLeaders hplaced b hnew, Or.inl hnew⟩
  · exact Or.inr ⟨hblock.chain.ne_zero_of_cut hplaced hcut hinsn, Or.inr hcut⟩
  · simp [hnone] at hdec

/-- Every reachable instruction lies in a block that the edges lead to. -/
theorem exists_linked (hplaced : WellPlaced fetch) (h : Cut fetch leaders blocks)
    (hleaders : ∀ l, l ∈ leaders ↔ Leader fetch entry l) {a : U64}
    (ha : Reached fetch entry a) : ∃ bb ∈ blocks.toList.map Prod.snd,
      Linked entry (blocks.toList.map Prod.snd) bb ∧
      ∃ insns exit, ChainBlock fetch leaders bb.addr bb insns exit ∧
        ∃ insn ∈ insns, insn.address = a := by
  induction ha with
  | entry hdec =>
      obtain ⟨bb, hbb, rfl, insns, exit, hblock⟩ := h.exists_block ((hleaders entry).mpr .entry)
      exact ⟨bb, hbb, ⟨bb, hbb, rfl, .refl⟩, insns, exit, hblock,
        hblock.chain.exists_head hplaced.toPlaced hdec fun hcut => (hblock.cut_mem hcut).2⟩
  | succ _ hsucc hdec ih =>
      obtain ⟨bb, hbb, hlinked, insns, exit, hblock, insn, hinsn, rfl⟩ := ih
      rcases edgeTo_of_succ hplaced hblock hinsn hsucc hdec with hin | hedge
      · exact ⟨bb, hbb, hlinked, insns, exit, hblock, hin⟩
      · obtain ⟨bb', hbb', rfl, hlinked', insns', exit', hblock'⟩ :=
          h.linked_of_edge hleaders hbb hlinked hedge
        exact ⟨bb', hbb', hlinked', insns', exit', hblock',
          hblock'.chain.exists_head hplaced.toPlaced hdec fun hcut => (hblock'.cut_mem hcut).2⟩

theorem linked_of_succ (hplaced : WellPlaced fetch) (h : Cut fetch leaders blocks)
    (hleaders : ∀ l, l ∈ leaders ↔ Leader fetch entry l) {bb : BasicBlock}
    (hbb : bb ∈ blocks.toList.map Prod.snd) {a : U64} {insn : Instruction}
    (ha : Reached fetch entry a) (hinsn : fetch a = some insn) (hends : ¬ FallsThrough insn)
    (hsucc : Succ fetch a bb.addr) : Linked entry (blocks.toList.map Prod.snd) bb := by
  obtain ⟨pred, hpred, hlinked, insns, exit, hblock, other, hother, rfl⟩ :=
    h.exists_linked hplaced hleaders ha
  obtain rfl := Option.some.inj
    ((hblock.chain.fetch_eq hplaced.toPlaced other hother).symm.trans hinsn)
  have hnew := hblock.chain.mem_newLeaders hplaced.toPlaced hother hends hsucc
  have hedge : pred.EdgeTo bb.addr := by
    rw [hblock.eq, edgeTo_blockOf]
    exact ⟨hblock.chain.ne_zero_of_mem_newLeaders hplaced _ hnew, Or.inl hnew⟩
  exact hlinked.tail ⟨hbb, hedge⟩

/-- **The blocks of the leaders are connected.** -/
theorem connected (hplaced : WellPlaced fetch) (h : Cut fetch leaders blocks)
    (hleaders : ∀ l, l ∈ leaders ↔ Leader fetch entry l) :
    Connected entry (blocks.toList.map Prod.snd) where
  closed bb hbb l hedge := by
    obtain ⟨bb', hbb', haddr, -⟩ := h.exists_block (h.mem_leaders_of_edge hleaders hbb hedge)
    exact ⟨bb', hbb', haddr⟩
  linked bb hbb := by
    have hleader := (hleaders bb.addr).mp (h.exists_chain hbb).1
    generalize haddr : bb.addr = l at hleader
    cases hleader with
    | entry => exact ⟨bb, hbb, haddr, .refl⟩
    | @target a insn ha hinsn hbr =>
        have hsucc : Succ fetch a bb.addr := haddr ▸ .target hinsn hbr
        refine h.linked_of_succ hplaced hleaders hbb ha hinsn ?_ hsucc
        rcases hbr.1 with hflow | hflow <;> simp [FallsThrough, hflow]
    | @next a insn ha hinsn hflow =>
        have hsucc : Succ fetch a bb.addr := haddr ▸ .next hinsn (Or.inr hflow)
        exact h.linked_of_succ hplaced hleaders hbb ha hinsn (by simp [FallsThrough, hflow]) hsucc

end Cut

/-! ## `build` -/

/-- The split loop makes splits. -/
theorem splitLoop_splits {leaders : Std.ExtTreeSet U64} {fuel : ℕ}
    {blocks blocks' : Std.ExtTreeMap U64 BasicBlock}
    (hsplit : splitLoop leaders fuel blocks = some blocks') :
    Relation.ReflTransGen (Splits leaders) blocks blocks' := by
  refine splitLoop_invariant (Relation.ReflTransGen (Splits leaders) blocks)
    (fun cut key bb leader hinv hbb hleader hlow hhigh hboundary => ?_) .refl hsplit
  exact hinv.tail ⟨key, bb, leader, hbb, hleader, hlow, hhigh,
    List.contains_iff_mem.mpr hboundary, rfl⟩

/-- The blocks that `finalize` returns are those after some splits. -/
theorem finalize_splits {fuel : ℕ} {entry : U64} {b : Builder} {fn : Function}
    (h : finalize fuel entry b = some fn) : ∃ blocks,
      Relation.ReflTransGen (Splits b.leaders) b.blocks blocks ∧
      (blocks.toList.map Prod.snd).Perm fn.blocks := by
  obtain ⟨blocks, hsplit, rfl⟩ := finalize_eq_some.mp h
  exact ⟨blocks, splitLoop_splits hsplit, (List.mergeSort_perm _ _).symm⟩

/-- **The edges of a function**: each leads to a block of the function, and they lead from the
entry to every block, after any sequence of splits of what was traced and in what `build`
returns. -/
theorem build_connected {disasm : Disassembler} {reader : ByteReader} (hlawful : disasm.Lawful)
    (hend : ∀ pc insn, fetch disasm reader pc = some insn →
      insn.address.toNat + insn.length.toNat < 2 ^ 64)
    (entry : U64) (old : List Xref) : ∃ bound fn b,
      (∀ fuel ≥ bound,
        Worklist.run (visitBlock disasm reader fuel) fuel
          ⟨[entry], {entry}, { leaders := (∅ : Std.ExtTreeSet U64).insert entry, xrefs := old }⟩ =
            some b ∧
        build disasm reader fuel entry old = some (fn, b.callees, b.xrefs)) ∧
      Connected entry fn.blocks ∧
      ∀ blocks, Relation.ReflTransGen (Splits b.leaders) b.blocks blocks →
        Connected entry (blocks.toList.map Prod.snd) := by
  have hplaced := wellPlaced_fetch hlawful hend
  obtain ⟨bound, fn, s, hrun, -, hdisc, hdone⟩ := discover_finalize_spec hplaced entry old
  have hconnected : ∀ blocks, Relation.ReflTransGen (Splits s.data.leaders) s.data.blocks blocks →
      Connected entry (blocks.toList.map Prod.snd) := fun blocks hsplits =>
    ((hdisc.cut hplaced hdone).splits hplaced hsplits).connected hplaced fun _ =>
      hdisc.mem_leaders_iff hplaced.toPlaced (hplaced.nullSafe _) hdone
  refine ⟨bound, fn, s.data, fun fuel hfuel => ⟨(hrun fuel hfuel).1, ?_⟩, ?_, hconnected⟩
  · exact build_eq_some.mpr ⟨s.data, (hrun fuel hfuel).1, (hrun fuel hfuel).2, rfl, rfl⟩
  · obtain ⟨blocks, hsplits, hperm⟩ := finalize_splits (hrun bound (le_refl _)).2
    exact (hconnected blocks hsplits).perm hperm

theorem build_connected_small : ∃ bound fn b,
    (∀ fuel ≥ bound,
      Worklist.run (visitBlock smallDecoder (imageReader 0x1000 smallImage) fuel) fuel
        ⟨[0x1000], {0x1000}, { leaders := (∅ : Std.ExtTreeSet U64).insert 0x1000 }⟩ = some b ∧
      build smallDecoder (imageReader 0x1000 smallImage) fuel 0x1000 [] =
        some (fn, b.callees, b.xrefs)) ∧
    Connected 0x1000 fn.blocks ∧
    ∀ blocks, Relation.ReflTransGen (Splits b.leaders) b.blocks blocks →
      Connected 0x1000 (blocks.toList.map Prod.snd) :=
  build_connected smallDecoder_lawful small_fetch_end 0x1000 []

end Irida.Analysis
