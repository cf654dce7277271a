import Irida.Analysis.Discovery
import Mathlib.Algebra.Order.BigOperators.Group.List
import Mathlib.Algebra.Order.Ring.Nat

/-!
# Splitting

The restart-on-change loop of `finalize`.  What each split keeps, the loop keeps
(`splitLoop_invariant`), as the order of the map that it works on (`Keyed`).

When discovery is over every leader owns a block (`Cut.mem_iff`), so the tail
that `split_block` offers is refused and a split only shortens one block.  The
number of instructions held by the blocks (`weight`) therefore falls with every
split, which ends the loop; and when no split applies any more, no block runs
through a leader.
-/

namespace Irida.Analysis

open Disasm

/-- The invariant of the split loop: each leader owns a block, and each block is
that of a chain from its leader. -/
structure Cut (fetch : U64 → Option Instruction) (leaders : Std.ExtTreeSet U64)
    (blocks : Std.ExtTreeMap U64 BasicBlock) : Prop where
  mem_iff : ∀ l, l ∈ blocks ↔ l ∈ leaders
  chain : ∀ l bb, blocks[l]? = some bb → ∃ insns exit, ChainBlock fetch leaders l bb insns exit

theorem Discovered.cut {fetch : U64 → Option Instruction} {entry : U64} {old : List Xref}
    {s : Worklist.State U64 Builder} (hplaced : WellPlaced fetch)
    (h : Discovered fetch entry old s) (hdone : s.work = []) :
    Cut fetch s.data.leaders s.data.blocks where
  mem_iff _ := h.mem_blocks_iff hplaced hdone
  chain l bb hbb := by
    obtain ⟨insns, exit, hblock, -⟩ := h.traced l bb hbb
    exact ⟨insns, exit, hblock⟩

/-- The number of instructions of the block of a leader. -/
def instrCount (blocks : Std.ExtTreeMap U64 BasicBlock) (l : U64) : ℕ :=
  match blocks[l]? with
  | none => 0
  | some bb => bb.instrAddrs.length

/-- The number of instructions of all blocks. -/
def weight (leaders : Std.ExtTreeSet U64) (blocks : Std.ExtTreeMap U64 BasicBlock) : ℕ :=
  (leaders.toList.map (instrCount blocks)).sum

/-! ## What the search for a split finds -/

theorem findLeader_eq_some {leaders : List U64} {bb : BasicBlock} {leader : U64}
    (h : findLeader leaders bb = some leader) :
    leader ∈ leaders ∧ bb.addr < leader ∧ leader < bb.addr + bb.size ∧
      leader ∈ bb.instrAddrs := by
  have hmem := List.mem_of_find?_eq_some h
  have hcond := List.find?_some h
  simp only [isInstrBoundary, Bool.and_eq_true, Bool.not_eq_true', decide_eq_false_iff_not,
    not_or, List.contains_iff_mem] at hcond
  exact ⟨hmem, by simpa using hcond.1.1, by simpa using hcond.1.2, hcond.2⟩

theorem findSplit_eq_some {leaders : Std.ExtTreeSet U64}
    {blocks : Std.ExtTreeMap U64 BasicBlock} {key leader : U64} {bb : BasicBlock}
    (h : findSplit leaders.toList blocks.toList = some (key, bb, leader)) :
    blocks[key]? = some bb ∧ leader ∈ leaders ∧ bb.addr < leader ∧
      leader < bb.addr + bb.size ∧ leader ∈ bb.instrAddrs := by
  obtain ⟨⟨key', bb'⟩, hmem, hfound⟩ := List.exists_of_findSome?_eq_some h
  obtain ⟨leader', hleader, heq⟩ := Option.map_eq_some_iff.mp hfound
  simp only [Prod.mk.injEq] at heq
  obtain ⟨rfl, rfl, rfl⟩ := heq
  obtain ⟨hl, hinner⟩ := findLeader_eq_some hleader
  exact ⟨Std.ExtTreeMap.mem_toList_iff_getElem?_eq_some.mp hmem,
    Std.ExtTreeSet.mem_toList.mp hl, hinner⟩

/-- Where nothing is left to split, no leader is an inner boundary of a block. -/
theorem not_mem_of_findSplit_eq_none {leaders : Std.ExtTreeSet U64}
    {blocks : Std.ExtTreeMap U64 BasicBlock}
    (h : findSplit leaders.toList blocks.toList = none) {key leader : U64} {bb : BasicBlock}
    (hbb : blocks[key]? = some bb) (hlow : bb.addr < leader) (hhigh : leader < bb.addr + bb.size)
    (hboundary : leader ∈ bb.instrAddrs) : leader ∉ leaders := by
  intro hleader
  have hnone := List.findSome?_eq_none_iff.mp h (key, bb)
    (Std.ExtTreeMap.mem_toList_iff_getElem?_eq_some.mpr hbb)
  rw [Option.map_eq_none_iff] at hnone
  have hnot := List.find?_eq_none.mp hnone leader (Std.ExtTreeSet.mem_toList.mpr hleader)
  refine hnot ?_
  simp only [isInstrBoundary, Bool.and_eq_true, Bool.not_eq_true', decide_eq_false_iff_not,
    not_or, List.contains_iff_mem]
  exact ⟨⟨BitVec.not_le.mpr hlow, BitVec.not_le.mpr hhigh⟩, hboundary⟩

theorem mem_map_snd_toList {blocks : Std.ExtTreeMap U64 BasicBlock} {bb : BasicBlock} :
    bb ∈ blocks.toList.map Prod.snd ↔ ∃ l : U64, blocks[l]? = some bb := by
  rw [List.mem_map]
  constructor
  · rintro ⟨⟨l, bb⟩, hp, rfl⟩
    exact ⟨l, Std.ExtTreeMap.mem_toList_iff_getElem?_eq_some.mp hp⟩
  · rintro ⟨l, hl⟩
    exact ⟨(l, bb), Std.ExtTreeMap.mem_toList_iff_getElem?_eq_some.mpr hl, rfl⟩

/-- **The invariant rule of the split loop**: what each split keeps holds of the blocks that the
loop ends with. -/
theorem splitLoop_invariant {leaders : Std.ExtTreeSet U64}
    (Inv : Std.ExtTreeMap U64 BasicBlock → Prop)
    (hstep : ∀ (blocks : Std.ExtTreeMap U64 BasicBlock) (key : U64) (bb : BasicBlock)
      (leader : U64), Inv blocks → blocks[key]? = some bb → leader ∈ leaders → bb.addr < leader →
      leader < bb.addr + bb.size → leader ∈ bb.instrAddrs →
      Inv (splitBlock blocks key bb leader))
    {fuel : ℕ} {blocks blocks' : Std.ExtTreeMap U64 BasicBlock} (hinv : Inv blocks)
    (hsplit : splitLoop leaders fuel blocks = some blocks') : Inv blocks' := by
  induction fuel generalizing blocks with
  | zero => cases hsplit
  | succ fuel ih =>
      rw [splitLoop] at hsplit
      cases hfind : findSplit leaders.toList blocks.toList with
      | none =>
          rw [hfind] at hsplit
          exact Option.some.inj hsplit ▸ hinv
      | some found =>
          obtain ⟨key, bb, leader⟩ := found
          rw [hfind] at hsplit
          obtain ⟨hbb, hleader, hlow, hhigh, hboundary⟩ := findSplit_eq_some hfind
          exact ih (hstep blocks key bb leader hinv hbb hleader hlow hhigh hboundary) hsplit

/-- The blocks are stored under their addresses. -/
def Keyed (blocks : Std.ExtTreeMap U64 BasicBlock) : Prop :=
  ∀ (l : U64) (bb : BasicBlock), blocks[l]? = some bb → bb.addr = l

namespace Keyed

variable {blocks : Std.ExtTreeMap U64 BasicBlock}

theorem insertIfNew (h : Keyed blocks) {l : U64} {bb : BasicBlock} (haddr : bb.addr = l) :
    Keyed (blocks.insertIfNew l bb) := by
  intro l' other hother
  rw [Std.ExtTreeMap.getElem?_insertIfNew] at hother
  split at hother
  · next heq =>
      obtain rfl := Option.some.inj hother
      exact haddr.trans (Std.compare_eq_iff_eq.mp heq.1)
  · exact h l' other hother

theorem insert (h : Keyed blocks) {l : U64} {bb : BasicBlock} (haddr : bb.addr = l) :
    Keyed (blocks.insert l bb) := by
  intro l' other hother
  rw [Std.ExtTreeMap.getElem?_insert] at hother
  split at hother
  · next heq =>
      obtain rfl := Option.some.inj hother
      exact haddr.trans (Std.compare_eq_iff_eq.mp heq)
  · exact h l' other hother

theorem splitLoop (h : Keyed blocks) {leaders : Std.ExtTreeSet U64} {fuel : ℕ}
    {blocks' : Std.ExtTreeMap U64 BasicBlock}
    (hsplit : splitLoop leaders fuel blocks = some blocks') : Keyed blocks' := by
  refine splitLoop_invariant Keyed (fun blocks key bb leader h hbb _ _ _ _ => ?_) h hsplit
  have hhead : (splitHead bb leader).addr = key := h key bb hbb
  exact (h.insert hhead).insertIfNew rfl

theorem pairwise_toList (h : Keyed blocks) :
    (blocks.toList.map Prod.snd).Pairwise fun a b => a.addr < b.addr := by
  have haddr : ∀ p ∈ blocks.toList, p.2.addr = p.1 := fun p hp =>
    h p.1 p.2 (Std.ExtTreeMap.mem_toList_iff_getElem?_eq_some.mp hp)
  rw [List.pairwise_map]
  refine (Std.ExtTreeMap.ordered_keys_toList (t := blocks)).imp_of_mem
    fun {first second} hfirst hsecond hlt => ?_
  rw [haddr first hfirst, haddr second hsecond]
  exact compareOfLessAndEq_eq_lt.mp hlt

theorem mergeSort_toList (h : Keyed blocks) :
    ((blocks.toList.map Prod.snd).mergeSort fun a b => a.addr ≤ b.addr) =
      blocks.toList.map Prod.snd :=
  List.mergeSort_of_pairwise
    (h.pairwise_toList.imp fun hlt => by simpa using BitVec.le_of_lt hlt)

end Keyed

theorem Cut.keyed {fetch : U64 → Option Instruction} {leaders : Std.ExtTreeSet U64}
    {blocks : Std.ExtTreeMap U64 BasicBlock} (h : Cut fetch leaders blocks) : Keyed blocks := by
  intro l bb hbb
  obtain ⟨insns, exit, hblock⟩ := h.chain l bb hbb
  rw [hblock.eq]
  rfl

/-! ## One split -/

/-- The instructions below an address of an increasing list are those before it. -/
private theorem filter_lt_of_pairwise {first second : List U64} {x : U64}
    (h : (first ++ x :: second).Pairwise (· < ·)) :
    (first ++ x :: second).filter (· < x) = first := by
  obtain ⟨-, hsecond, hcross⟩ := List.pairwise_append.mp h
  rw [List.filter_append, List.filter_eq_self.mpr, List.filter_eq_nil_iff.mpr, List.append_nil]
  · intro y hy
    rcases List.mem_cons.mp hy with rfl | hy
    · simp
    · have hlt := (List.pairwise_cons.mp hsecond).1 y hy
      simpa using BitVec.le_of_lt hlt
  · intro y hy
    simpa using hcross y hy x (List.mem_cons_self ..)

/-- The head of a split is the block of the first part of the chain. -/
theorem splitHead_eq {fetch : U64 → Option Instruction} (hplaced : WellPlaced fetch)
    {l leader : U64} {insns : List Instruction} {exit : Exit} (h : Chain fetch l insns exit)
    (hlow : l < leader) (hmem : leader ∈ insns.map Instruction.address) :
    ∃ first second, insns = first ++ second ∧ first ≠ [] ∧ second ≠ [] ∧
      Chain fetch l first (.cut leader) ∧
      splitHead (blockOf l insns exit) leader = blockOf l first (.cut leader) := by
  obtain ⟨insn, hinsn, rfl⟩ := List.mem_map.mp hmem
  obtain ⟨first, second, rfl⟩ := List.append_of_mem hinsn
  have hfirst : first ≠ [] := by
    rintro rfl
    rw [List.nil_append] at h
    rw [h.head_address hplaced.toPlaced] at hlow
    exact BitVec.lt_irrefl _ hlow
  obtain ⟨hcut, haddr⟩ := h.split hplaced.toPlaced
  refine ⟨first, insn :: second, rfl, hfirst, List.cons_ne_nil _ _, hcut, ?_⟩
  have hincr : ((first ++ insn :: second).map Instruction.address).Pairwise (· < ·) :=
    List.pairwise_map.mpr (h.pairwise_lt hplaced)
  rw [List.map_append, List.map_cons] at hincr
  have hsize : insn.address - l = sizeOf first := by
    rw [haddr, add_comm, BitVec.add_sub_cancel]
  simp only [splitHead, blockOf, hsize, List.map_append, List.map_cons,
    filter_lt_of_pairwise hincr]
  rfl

theorem getElem?_splitBlock {blocks : Std.ExtTreeMap U64 BasicBlock} {leader : U64} (key : U64)
    (bb : BasicBlock) (hleader : leader ∈ blocks) (l : U64) :
    (splitBlock blocks key bb leader)[l]? =
      if key = l then some (splitHead bb leader) else blocks[l]? := by
  have hmem : leader ∈ blocks.insert key (splitHead bb leader) := by
    rw [Std.ExtTreeMap.mem_insert]
    exact Or.inr hleader
  rw [splitBlock, Std.ExtTreeMap.getElem?_insertIfNew, if_neg fun h => h.2 hmem,
    Std.ExtTreeMap.getElem?_insert]
  simp only [Std.compare_eq_iff_eq]

theorem mem_splitBlock {blocks : Std.ExtTreeMap U64 BasicBlock} {key leader : U64}
    {bb : BasicBlock} (hkey : key ∈ blocks) {l : U64} :
    l ∈ splitBlock blocks key bb leader ↔ l ∈ blocks ∨ l = leader := by
  rw [splitBlock, Std.ExtTreeMap.mem_insertIfNew, Std.ExtTreeMap.mem_insert]
  simp only [Std.compare_eq_iff_eq]
  constructor
  · rintro (rfl | rfl | h)
    · exact Or.inr rfl
    · exact Or.inl hkey
    · exact Or.inl h
  · rintro (h | rfl)
    · exact Or.inr (Or.inr h)
    · exact Or.inl rfl

section Step

variable {fetch : U64 → Option Instruction} {leaders : Std.ExtTreeSet U64}
  {blocks : Std.ExtTreeMap U64 BasicBlock} {key leader : U64} {bb : BasicBlock}

/-- One iteration of the split loop keeps the invariant and removes instructions. -/
theorem Cut.split (hplaced : WellPlaced fetch) (h : Cut fetch leaders blocks)
    (hbb : blocks[key]? = some bb) (hleader : leader ∈ leaders) (hlow : bb.addr < leader)
    (hboundary : leader ∈ bb.instrAddrs) :
    Cut fetch leaders (splitBlock blocks key bb leader) ∧
      weight leaders (splitBlock blocks key bb leader) < weight leaders blocks := by
  obtain ⟨insns, exit, hblock⟩ := h.chain key bb hbb
  obtain rfl := hblock.eq
  obtain ⟨first, second, hinsns, hfirst, hsecond, hcut, hhead⟩ :=
    splitHead_eq hplaced hblock.chain hlow hboundary
  have hget := getElem?_splitBlock key (blockOf key insns exit) ((h.mem_iff leader).mpr hleader)
  refine ⟨⟨fun l => ?_, fun l other hother => ?_⟩, ?_⟩
  · -- the leader owns a block already, so no block is added
    rw [← h.mem_iff l, ← Std.ExtTreeMap.isSome_getElem?_iff_mem,
      ← Std.ExtTreeMap.isSome_getElem?_iff_mem, hget]
    split
    · next heq => simp [← heq, hbb]
    · rfl
  · rw [hget] at hother
    split at hother
    · next heq =>
        obtain rfl := heq
        refine ⟨first, .cut leader, ⟨?_, hcut, ?_⟩⟩
        · rw [← Option.some.inj hother, hhead]
        · rintro next hnext
          obtain rfl : leader = next := by simpa using hnext
          exact ⟨hleader, hfirst⟩
    · exact h.chain l other hother
  · -- only the block that is cut gets shorter, by the instructions of the tail
    have hcount : ∀ l, instrCount (splitBlock blocks key (blockOf key insns exit) leader) l =
        if key = l then first.length else instrCount blocks l := by
      intro l
      by_cases hkey : key = l
      · rw [instrCount, hget, if_pos hkey, if_pos hkey, hhead]
        simp [blockOf]
      · rw [instrCount, hget, if_neg hkey, if_neg hkey, instrCount]
    have hshort : first.length < instrCount blocks key := by
      rw [instrCount, hbb, hinsns]
      have := List.length_pos_iff.mpr hsecond
      simp [blockOf]
      omega
    refine List.sum_lt_sum _ _ (fun l _ => ?_) ⟨key, ?_, ?_⟩
    · rw [hcount]
      split
      · next heq => exact heq ▸ hshort.le
      · exact le_rfl
    · rw [Std.ExtTreeSet.mem_toList, ← h.mem_iff]
      exact Std.ExtTreeMap.mem_iff_isSome_getElem?.mpr (by simp [hbb])
    · rw [hcount, if_pos rfl]
      exact hshort

/-- **The split loop ends**, with the invariant and nothing left to split. -/
theorem splitLoop_spec (hplaced : WellPlaced fetch) {fuel : ℕ} :
    ∀ {blocks : Std.ExtTreeMap U64 BasicBlock}, Cut fetch leaders blocks →
      weight leaders blocks < fuel → ∃ blocks', splitLoop leaders fuel blocks = some blocks' ∧
        Cut fetch leaders blocks' ∧ findSplit leaders.toList blocks'.toList = none := by
  induction fuel with
  | zero => intro blocks _ hfuel; omega
  | succ fuel ih =>
      intro blocks h hfuel
      rw [splitLoop]
      cases hfind : findSplit leaders.toList blocks.toList with
      | none => exact ⟨blocks, rfl, h, hfind⟩
      | some found =>
          obtain ⟨key, bb, leader⟩ := found
          obtain ⟨hbb, hleader, hlow, -, hboundary⟩ := findSplit_eq_some hfind
          obtain ⟨hcut, hweight⟩ := h.split hplaced hbb hleader hlow hboundary
          exact ih hcut (by omega)

end Step

/-- When nothing is left to split, no block runs through a leader. -/
theorem ChainBlock.interior {fetch : U64 → Option Instruction} (hplaced : WellPlaced fetch)
    {leaders : Std.ExtTreeSet U64} {blocks : Std.ExtTreeMap U64 BasicBlock} {l : U64}
    {bb : BasicBlock} {insns : List Instruction} {exit : Exit}
    (hdone : findSplit leaders.toList blocks.toList = none) (hbb : blocks[l]? = some bb)
    (h : ChainBlock fetch leaders l bb insns exit) :
    ∀ insn ∈ insns.tail, insn.address ∉ leaders := by
  intro insn hinsn
  obtain rfl := h.eq
  have hmem := List.mem_of_mem_tail hinsn
  obtain ⟨hend, hbounds⟩ := h.chain.bounds hplaced
  refine not_mem_of_findSplit_eq_none hdone hbb ?_ ?_ (List.mem_map.mpr ⟨insn, hmem, rfl⟩)
  · cases insns with
    | nil => simp at hmem
    | cons head rest =>
        have hlt := (List.pairwise_cons.mp (h.chain.pairwise_lt hplaced)).1 insn hinsn
        rwa [h.chain.head_address hplaced.toPlaced] at hlt
  · rw [BitVec.lt_def, BitVec.toNat_add]
    simp only [blockOf, h.chain.toNat_sizeOf hplaced]
    have := (hbounds insn hmem).2
    omega

end Irida.Analysis
