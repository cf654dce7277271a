import Irida.Analysis.Exploration
import Irida.Analysis.Visits

/-!
# References that are listed twice

`trace_block` records a reference for each direct transfer that it decodes, whether or not it was
decoded before.  So a reference is listed twice exactly if its instruction is traced twice: for two
functions (`SharesNone`), or in two calls of `trace_block` for one of them (`RetracesNone`).

What a call of `trace_block` decodes follows from the state that it is made in: it goes on to the
next address in `leaders_`.  It decodes a transfer for a second time exactly if one of the blocks in
`blocks_` has it (`Untraced`).  That is how the loops are found whose head was traced over: the head
becomes a leader when the branch behind it is met, and from there the branch is traced again.

In code that does not run past the end of the address space, the calls of `trace_block` are those of
the search for the leaders (`retracesNone_iff`).
-/

namespace Irida.Analysis

open Disasm

/-- No direct transfer ahead of a leader, up to the next known one, is in a block already. -/
def Untraced (fetch : U64 → Option Instruction) (b : Builder) (start : U64) : Prop :=
  ∀ i insn, Ahead fetch b.leaders start i → fetch i = some insn → refs insn ≠ [] →
    ∀ (l : U64) bb, b.blocks[l]? = some bb → i ∉ bb.instrAddrs

/-- No call of `trace_block` for a function goes over a direct transfer that is in a block
already. -/
def RetracesNone (disasm : Disassembler) (reader : ByteReader) (entry : U64) : Prop :=
  ∀ start b, Traces disasm reader entry start b → Untraced (fetch disasm reader) b start

/-- No direct transfer is decoded for two functions. -/
def SharesNone (disasm : Disassembler) (reader : ByteReader) (entryPoints : List U64) : Prop :=
  ∀ e e' i insn, Taken disasm reader entryPoints e → Taken disasm reader entryPoints e' →
    DecodedFor disasm reader e i → DecodedFor disasm reader e' i →
    fetch disasm reader i = some insn → refs insn ≠ [] → e = e'

/-- The rows of `static_xrefs_to` and `core_xrefs_to`. -/
def xrefsTo (result : AnalysisResult) (addr : U64) : List Xref :=
  result.xrefs.filter fun x => x.target = addr

/-! ## The references of one function -/

section Build

variable {disasm : Disassembler} {reader : ByteReader} {entry : U64}
  {s : Worklist.State U64 Builder}

/-- The recorded references are those of the instructions in the blocks. -/
def Logged (fetch : U64 → Option Instruction) (b : Builder) : Prop :=
  ∀ x, x ∈ b.xrefs ↔ ∃ (l : U64) (bb : BasicBlock) (i : U64) (insn : Instruction),
    b.blocks[l]? = some bb ∧ i ∈ bb.instrAddrs ∧ fetch i = some insn ∧ x ∈ refs insn

theorem mem_instrAddrs_blockOf {start i : U64} {insns : List Instruction} {exit : Exit} :
    i ∈ (blockOf start insns exit).instrAddrs ↔ ∃ insn ∈ insns, insn.address = i := by
  exact List.mem_map

/-- One call of `trace_block`. -/
theorem Logged.trace {fetch : U64 → Option Instruction} (hplaced : Placed fetch) {b : Builder}
    (h : Logged fetch b) {start : U64} (hstart : start ∉ b.blocks) {insns : List Instruction}
    {exit : Exit} (htraced : Traced fetch b.leaders start start insns exit) :
    Logged fetch { b.record insns exit with
      blocks := b.blocks.insertIfNew start (blockOf start insns exit) } := by
  have hfetch := htraced.chain.fetch_eq hplaced
  -- the map has one block more
  have hget : ∀ (l : U64) (bb : BasicBlock),
      (b.blocks.insertIfNew start (blockOf start insns exit))[l]? = some bb ↔
        b.blocks[l]? = some bb ∨ l = start ∧ blockOf start insns exit = bb := by
    intro l bb
    rw [Std.ExtTreeMap.getElem?_insertIfNew]
    by_cases hl : start = l
    · subst hl
      simp [hstart]
    · simp [hl, Ne.symm hl]
  intro x
  dsimp only [Builder.record]
  rw [List.mem_append, h x]
  constructor
  · rintro (⟨l, bb, i, insn, hbb, hrest⟩ | hx)
    · exact ⟨l, bb, i, insn, (hget l bb).mpr (Or.inl hbb), hrest⟩
    · obtain ⟨insn, hinsn, hx⟩ := List.mem_flatMap.mp hx
      exact ⟨start, _, insn.address, insn, (hget _ _).mpr (Or.inr ⟨rfl, rfl⟩),
        mem_instrAddrs_blockOf.mpr ⟨insn, hinsn, rfl⟩, hfetch insn hinsn, hx⟩
  · rintro ⟨l, bb, i, insn, hbb, hi, hinsn, hx⟩
    rcases (hget l bb).mp hbb with hbb | ⟨-, rfl⟩
    · exact Or.inl ⟨l, bb, i, insn, hbb, hi, hinsn, hx⟩
    · obtain ⟨other, hother, rfl⟩ := mem_instrAddrs_blockOf.mp hi
      obtain rfl := Option.some.inj ((hfetch other hother).symm.trans hinsn)
      exact Or.inr (List.mem_flatMap.mpr ⟨other, hother, hx⟩)

theorem Builds.logged (hplaced : Placed (fetch disasm reader))
    (h : Builds disasm reader entry s) : Logged (fetch disasm reader) s.data := by
  induction h with
  | start => exact fun x => by simp [buildStart]
  | visit hs hwork hvisit ih =>
      rw [Worklist.State.data_enqueueAll]
      rcases visitBlock_traced hplaced hvisit with ⟨-, rfl, -⟩ | ⟨hstart, insns, exit, htraced, rfl⟩
      · exact ih
      · exact ih.trace hplaced hstart htraced

/-- **What one call of `trace_block` adds**: the references stay distinct exactly if it goes over no
transfer that is in a block already. -/
theorem Logged.nodup_iff {fetch : U64 → Option Instruction} (hplaced : Placed fetch) {b : Builder}
    (h : Logged fetch b) {start : U64} {insns : List Instruction} {exit : Exit}
    (htraced : Traced fetch b.leaders start start insns exit) :
    (b.xrefs ++ insns.flatMap refs).Nodup ↔ b.xrefs.Nodup ∧ Untraced fetch b start := by
  have hfetch := htraced.chain.fetch_eq hplaced
  -- the run itself meets no instruction twice
  have hrun : (insns.flatMap refs).Nodup := by
    rw [List.nodup_flatMap]
    refine ⟨fun insn _ => nodup_refs insn, ?_⟩
    have hne := List.pairwise_map.mp (htraced.nodup_addresses hplaced)
    refine hne.imp fun {insn insn'} hne x hx hx' => ?_
    exact hne ((mem_refs_iff.mp hx).1.symm.trans (mem_refs_iff.mp hx').1)
  rw [List.nodup_append', and_iff_right hrun]
  refine and_congr_right fun _ => ⟨fun hdisjoint => ?_, fun huntraced => ?_⟩
  · intro i insn hahead hinsn hrefs l bb hbb hi
    obtain ⟨x, hx⟩ := List.exists_mem_of_ne_nil _ hrefs
    have hmem := (htraced.mem_iff hplaced hinsn).mpr hahead
    exact hdisjoint ((h x).mpr ⟨l, bb, i, insn, hbb, hi, hinsn, hx⟩)
      (List.mem_flatMap.mpr ⟨insn, hmem, hx⟩)
  · intro x hx hx'
    obtain ⟨l, bb, i, insn, hbb, hi, hinsn, hx⟩ := (h x).mp hx
    obtain ⟨other, hother, hx'⟩ := List.mem_flatMap.mp hx'
    obtain rfl : other.address = i := by
      rw [← (mem_refs_iff.mp hx').1, (mem_refs_iff.mp hx).1, hplaced.address_eq hinsn]
    obtain rfl := Option.some.inj ((hfetch other hother).symm.trans hinsn)
    exact huntraced other.address other ((htraced.mem_iff hplaced hinsn).mp hother) hinsn
      (List.ne_nil_of_mem hx) l bb hbb hi

theorem RetracesNone.nodup (hplaced : Placed (fetch disasm reader))
    (hnone : RetracesNone disasm reader entry) (h : Builds disasm reader entry s) :
    s.data.xrefs.Nodup := by
  induction h with
  | start => exact List.nodup_nil
  | @visit s start rest fuel b found hs hwork hvisit ih =>
      rw [Worklist.State.data_enqueueAll]
      rcases visitBlock_traced hplaced hvisit with ⟨-, rfl, -⟩ | ⟨hstart, insns, exit, htraced, rfl⟩
      · exact ih
      · exact ((Builds.logged hplaced hs).nodup_iff hplaced htraced).mpr
          ⟨ih, hnone start s.data ⟨s, rest, hs, hwork, rfl, hstart⟩⟩

/-- **When the references of one function are distinct.** -/
theorem nodup_iff_retracesNone (hplaced : Placed (fetch disasm reader)) {fuel : ℕ}
    {r : Function × List U64 × List Xref} (h : build disasm reader fuel entry [] = some r) :
    r.2.2.Nodup ↔ RetracesNone disasm reader entry := by
  obtain ⟨fn, callees, xrefs⟩ := r
  obtain ⟨result, hrun, -, -, rfl⟩ := build_eq_some.mp h
  constructor
  · intro hnodup start b htraces
    obtain ⟨insns, exit, htraced, hgrows⟩ := htraces.recorded hplaced hrun
    obtain ⟨s, -, hs, -, rfl, -⟩ := htraces
    exact (((Builds.logged hplaced hs).nodup_iff hplaced htraced).mp
      (hgrows.xrefs.sublist.nodup hnodup)).2
  · intro hnone
    obtain ⟨s, hs, -, rfl⟩ := Worklist.Passes.of_run hrun
    exact hnone.nodup hplaced hs

end Build

/-! ## The references of all functions -/

section Result

variable {disasm : Disassembler} {reader : ByteReader} {entryPoints order : List U64}
  {built : U64 → Function × List U64 × List Xref}

theorem yielded_refs_iff (hplaced : Placed (fetch disasm reader)) {entry i : U64}
    {insn : Instruction} (hinsn : fetch disasm reader i = some insn) {x : Xref}
    (hx : x ∈ refs insn) :
    Yielded disasm reader entry refs x ↔ DecodedFor disasm reader entry i := by
  constructor
  · rintro ⟨i', insn', hi', hinsn', hx'⟩
    -- the reference names the instruction that makes it
    obtain rfl : i' = i := by
      rw [← hplaced.address_eq hinsn, ← hplaced.address_eq hinsn', ← (mem_refs_iff.mp hx).1,
        ← (mem_refs_iff.mp hx').1]
    exact hi'
  · exact fun hi => ⟨i, insn, hi, hinsn, hx⟩

end Result

/-- No direct transfer is reachable in two functions. -/
def NoneShared (fetch : U64 → Option Instruction) (entryPoints : List U64) : Prop :=
  ∀ e e' a insn, Callable fetch entryPoints e → Callable fetch entryPoints e' →
    Reached fetch e a → Reached fetch e' a → fetch a = some insn → refs insn ≠ [] → e = e'

section Placed

variable {disasm : Disassembler} {reader : ByteReader} {entryPoints : List U64}

/-- **Which code is traced once**, by the search for the leaders: no direct transfer lies in two
blocks, and none is met by a run that goes through leaders which are all found later. -/
theorem retracesNone_iff (hplaced : WellPlaced (fetch disasm reader)) (entry : U64) :
    RetracesNone disasm reader entry ↔ InOneBlock (fetch disasm reader) entry ∧
      FoundInTime (fetch disasm reader) entry := by
  obtain ⟨built, hbuilt⟩ := exists_built hplaced
  obtain ⟨bound, hrun⟩ := (hbuilt entry).run
  rw [← nodup_iff_retracesNone hplaced.toPlaced (hrun bound (le_refl _)),
    (hbuilt entry).nodup_iff hplaced]

/-- The direct transfers decoded for a function are the reachable ones. -/
theorem decodedFor_iff (hplaced : WellPlaced (fetch disasm reader)) {entry i : U64}
    {insn : Instruction} (hinsn : fetch disasm reader i = some insn) (hrefs : refs insn ≠ []) :
    DecodedFor disasm reader entry i ↔ Reached (fetch disasm reader) entry i := by
  obtain ⟨built, hbuilt⟩ := exists_built hplaced
  obtain ⟨bound, hrun⟩ := (hbuilt entry).run
  obtain ⟨x, hx⟩ := List.exists_mem_of_ne_nil _ hrefs
  refine ⟨fun hi => hi.reached hplaced.toPlaced (by rw [hinsn]; rfl), fun hi => ?_⟩
  rw [← yielded_refs_iff hplaced.toPlaced hinsn hx,
    ← (build_yields hplaced.toPlaced (hrun bound (le_refl _))).1, (hbuilt entry).mem_xrefs_iff]
  exact ⟨i, insn, hi, hinsn, hx⟩

theorem taken_iff_callable_of_wellPlaced (hplaced : WellPlaced (fetch disasm reader)) {e : U64} :
    Taken disasm reader entryPoints e ↔ Callable (fetch disasm reader) entryPoints e := by
  obtain ⟨fuel, result, hrun⟩ := exists_analyze hplaced none entryPoints
  exact taken_iff_callable hplaced.toPlaced hrun fun e _ => hplaced.nullSafe e

/-- **The condition on the code.** -/
theorem sharesNone_iff (hplaced : WellPlaced (fetch disasm reader)) :
    SharesNone disasm reader entryPoints ↔ NoneShared (fetch disasm reader) entryPoints := by
  unfold SharesNone NoneShared
  simp only [taken_iff_callable_of_wellPlaced hplaced]
  constructor
  · intro hshares e e' i insn he he' hi hi' hinsn hrefs
    exact hshares e e' i insn he he' ((decodedFor_iff hplaced hinsn hrefs).mpr hi)
      ((decodedFor_iff hplaced hinsn hrefs).mpr hi') hinsn hrefs
  · intro hshared e e' i insn he he' hi hi' hinsn hrefs
    exact hshared e e' i insn he he' ((decodedFor_iff hplaced hinsn hrefs).mp hi)
      ((decodedFor_iff hplaced hinsn hrefs).mp hi') hinsn hrefs

end Placed

end Irida.Analysis
