import Irida.Analysis.Partition
import Irida.Analysis.Visits

/-!
# Functions without code

`analyze` leaves out a function that has no blocks.  But `trace_block` returns a block for every
address, an empty one where nothing can be read or decoded, and so `build` returns a function with
at least one block for every entry (`build_sound`): the test never applies.

What is at the entry of a function decides whether the function has code.  Where the entry decodes,
the first instruction of its block stands there, through the loop of `trace_block` and through all
splits (`EntryBlock`).  Where it does not, the empty block is all that there is (`Hollow`).  So the
functions of a run all have code exactly if every address decodes that a function is built for
(`functions_haveCode_iff`).  These are the callable ones, unless code is lost with the null address.
-/

namespace Irida.Analysis

open Disasm

section Trace

variable {disasm : Disassembler} {reader : ByteReader} {start : U64}

/-- Tracing adds instructions to the end of the block. -/
theorem traceLoop_extends {fuel : ℕ} {pc : U64} {bb bb' : BasicBlock} {b b' : Builder}
    (h : traceLoop disasm reader start fuel pc bb b = some (bb', b')) :
    bb'.addr = bb.addr ∧ bb.instrAddrs <+: bb'.instrAddrs ∧ b'.blocks = b.blocks := by
  have hpush : ∀ (bb : BasicBlock) insn, bb.instrAddrs <+: (bb.push insn).instrAddrs :=
    fun _ _ => List.prefix_append _ _
  refine traceLoop_induct (P := fun _ bb b r =>
    r.1.addr = bb.addr ∧ bb.instrAddrs <+: r.1.instrAddrs ∧ r.2.blocks = b.blocks)
    ?known ?dead ?jump ?condJump ?ret ?more h
  case known => exact fun _ _ _ _ _ => ⟨rfl, List.prefix_rfl, rfl⟩
  case dead => exact fun _ _ _ _ => ⟨rfl, List.prefix_rfl, rfl⟩
  case jump | condJump | ret => exact fun _ bb _ insn _ _ _ => ⟨rfl, hpush bb insn, rfl⟩
  case more =>
    rintro _ bb _ insn r _ _ _ ⟨haddr, hextends, hblocks⟩
    exact ⟨haddr, (hpush bb insn).trans hextends, hblocks⟩

/-- The block of an address that decodes starts with the instruction there. -/
theorem traceBlock_starts {fuel : ℕ} {b b' : Builder} {bb : BasicBlock}
    (h : traceBlock disasm reader fuel start b = some (bb, b')) :
    bb.addr = start ∧ b'.blocks = b.blocks ∧
      ∀ insn, fetch disasm reader start = some insn → [insn.address] <+: bb.instrAddrs := by
  obtain ⟨haddr, -, hblocks⟩ := traceLoop_extends h
  refine ⟨haddr, hblocks, fun insn hfetch => ?_⟩
  rw [traceBlock] at h
  cases fuel with
  | zero => cases h
  | succ fuel =>
      rw [traceLoop_of_fetch_some (fun hstop => hstop.1 rfl) hfetch] at h
      cases hflow : insn.flow <;> simp only [hflow] at h
      case sequential | call => exact (traceLoop_extends h).2.1
      all_goals
        cases h
        exact List.prefix_rfl

theorem traceBlock_hollow {fuel : ℕ} {b : Builder} {r : BasicBlock × Builder}
    (hnone : fetch disasm reader start = none)
    (h : traceBlock disasm reader fuel start b = some r) : r = ({ addr := start }, b) := by
  rw [traceBlock] at h
  cases fuel with
  | zero => cases h
  | succ fuel =>
      rw [traceLoop_of_fetch_none (fun hstop => hstop.1 rfl) hnone] at h
      exact (Option.some.inj h).symm

end Trace

/-! ## An entry that decodes -/

/-- The blocks have their addresses for keys, and the one of the entry starts with an instruction
there. -/
structure EntryBlock (entry : U64) (blocks : Std.ExtTreeMap U64 BasicBlock) : Prop where
  addr : ∀ (l : U64) (bb : BasicBlock), blocks[l]? = some bb → bb.addr = l
  head : ∀ bb : BasicBlock, blocks[entry]? = some bb → bb.instrAddrs.head? = some entry

namespace EntryBlock

variable {entry : U64} {blocks : Std.ExtTreeMap U64 BasicBlock}

theorem insertIfNew {bb : BasicBlock} (h : EntryBlock entry blocks)
    (hhead : bb.addr = entry → entry ∉ blocks → bb.instrAddrs.head? = some entry) :
    EntryBlock entry (blocks.insertIfNew bb.addr bb) where
  addr := Keyed.insertIfNew h.addr rfl
  head other hother := by
    rw [Std.ExtTreeMap.getElem?_insertIfNew] at hother
    split at hother
    · next heq =>
        obtain rfl := Option.some.inj hother
        obtain ⟨haddr, hnew⟩ := heq
        rw [Std.compare_eq_iff_eq] at haddr
        exact hhead haddr (haddr ▸ hnew)
    · exact h.head other hother

/-- A split keeps the first instruction of the block that it cuts. -/
theorem insert_splitHead {key leader : U64} {bb : BasicBlock} (h : EntryBlock entry blocks)
    (hbb : blocks[key]? = some bb) (hlow : bb.addr < leader) :
    EntryBlock entry (blocks.insert key (splitHead bb leader)) where
  addr := by
    have hhead : (splitHead bb leader).addr = key := h.addr key bb hbb
    exact Keyed.insert h.addr hhead
  head other hother := by
    rw [Std.ExtTreeMap.getElem?_insert] at hother
    split at hother
    · next heq =>
        obtain rfl := Std.compare_eq_iff_eq.mp heq
        obtain rfl := Option.some.inj hother
        rw [h.addr key bb hbb] at hlow
        obtain ⟨rest, hrest⟩ := List.head?_eq_some_iff.mp (h.head bb hbb)
        simp [splitHead, hrest, hlow]
    · exact h.head other hother

theorem splitLoop (h : EntryBlock entry blocks) (hentry : entry ∈ blocks)
    {leaders : Std.ExtTreeSet U64} {fuel : ℕ} {blocks' : Std.ExtTreeMap U64 BasicBlock}
    (hsplit : splitLoop leaders fuel blocks = some blocks') :
    EntryBlock entry blocks' ∧ entry ∈ blocks' := by
  refine splitLoop_invariant (fun blocks => EntryBlock entry blocks ∧ entry ∈ blocks)
    (fun blocks key bb leader hinv hbb _ hlow _ _ => ?_) ⟨h, hentry⟩ hsplit
  obtain ⟨h, hentry⟩ := hinv
  have hkey : key ∈ blocks := Std.ExtTreeMap.mem_iff_isSome_getElem?.mpr (by simp [hbb])
  have hmem : entry ∈ blocks.insert key (splitHead bb leader) :=
    Std.ExtTreeMap.mem_insert.mpr (Or.inr hentry)
  refine ⟨?_, (mem_splitBlock hkey).mpr (Or.inl hentry)⟩
  show EntryBlock entry ((blocks.insert key (splitHead bb leader)).insertIfNew
    (splitTail bb leader).addr (splitTail bb leader))
  exact (h.insert_splitHead hbb hlow).insertIfNew fun _ hnew => absurd hmem hnew

end EntryBlock

section Build

variable {disasm : Disassembler} {reader : ByteReader} {entry : U64}

theorem EntryBlock.visit (hlawful : disasm.Lawful) (hentry : (fetch disasm reader entry).isSome)
    {fuel : ℕ} {start : U64} {b b' : Builder} {found : List U64} (h : EntryBlock entry b.blocks)
    (hvisit : visitBlock disasm reader fuel start b = some (b', found)) :
    EntryBlock entry b'.blocks := by
  rcases visitBlock_cases hvisit with ⟨-, rfl, -⟩ | ⟨bb, traced, htrace, rfl, -⟩
  · exact h
  obtain ⟨haddr, hblocks, hextends⟩ := traceBlock_starts htrace
  dsimp only
  rw [hblocks]
  refine h.insertIfNew fun heq _ => ?_
  obtain rfl : start = entry := haddr.symm.trans heq
  obtain ⟨insn, hinsn⟩ := Option.isSome_iff_exists.mp hentry
  obtain ⟨rest, hrest⟩ := hextends insn hinsn
  rw [← hrest, hlawful.address_eq (decodeOne_of_fetch hinsn).2]
  rfl

/-- Only the entry is queued, and no block has an instruction. -/
structure HollowBlocks (entry : U64) (s : Worklist.State U64 Builder) : Prop where
  work : ∀ l ∈ s.work, l = entry
  blocks : ∀ (l : U64) (bb : BasicBlock), s.data.blocks[l]? = some bb → bb = { addr := entry }

theorem HollowBlocks.visit (hentry : fetch disasm reader entry = none) {fuel : ℕ}
    {s : Worklist.State U64 Builder} {start : U64} {rest found : List U64} {b : Builder}
    (h : HollowBlocks entry s) (hwork : s.work = start :: rest)
    (hvisit : visitBlock disasm reader fuel start s.data = some (b, found)) :
    HollowBlocks entry (Worklist.State.enqueueAll { s with work := rest, data := b } found) := by
  obtain rfl : start = entry := h.work start (Worklist.State.head_mem_work hwork)
  have hrest : ∀ l ∈ rest, l = start := fun l hl =>
    h.work l (Worklist.State.tail_mem_work hwork hl)
  rcases visitBlock_cases hvisit with ⟨-, rfl, rfl⟩ | ⟨bb, traced, htrace, rfl, rfl⟩
  · exact ⟨hrest, h.blocks⟩
  cases traceBlock_hollow hentry htrace
  refine ⟨by simpa using hrest, fun l bb hbb => ?_⟩
  rw [Worklist.State.data_enqueueAll] at hbb
  dsimp only at hbb
  rw [Std.ExtTreeMap.getElem?_insertIfNew] at hbb
  split at hbb
  · exact (Option.some.inj hbb).symm
  · exact h.blocks l bb hbb

end Build

/-! ## The functions of a run -/

/-- `build` has returned the blocks and the size of the function. -/
def Function.FromBuild (disasm : Disassembler) (reader : ByteReader) (fn : Function) : Prop :=
  ∃ fuel old fn' callees xrefs, build disasm reader fuel fn.addr old = some (fn', callees, xrefs) ∧
    fn.blocks = fn'.blocks ∧ fn.size = fn'.size

section Analyze

variable {disasm : Disassembler} {reader : ByteReader}
  {symbolLookup : Option (U64 → Option String)} {entryPoints : List U64} {fn : Function}

theorem size_of_fromBuild (h : fn.FromBuild disasm reader) :
    fn.size = (fn.blocks.map BasicBlock.size).sum := by
  obtain ⟨fuel, old, fn', callees, xrefs, hbuild, hblocks, hsize⟩ := h
  rw [hsize, hblocks]
  exact size_of_build hbuild

theorem analyze_fromBuild {fuel : ℕ} {result : AnalysisResult}
    (h : analyze disasm reader symbolLookup fuel entryPoints = some result) :
    ∀ fn ∈ result.functions, fn.FromBuild disasm reader := by
  obtain ⟨s, hbuilt, -, rfl⟩ := analyze_invariant
    (fun s => ∀ fn ∈ s.data.result.functions, fn.FromBuild disasm reader)
    (fun s entry rest data found hs _ hvisit => by
      rw [Worklist.State.data_enqueueAll]
      rcases visitEntry_cases hvisit with ⟨-, rfl, -⟩ | ⟨fn, callees, xrefs, -, -, hbuild, rfl, -⟩
      · exact hs
      intro g hg
      rcases List.mem_append.mp hg with hg | hg
      · exact hs g hg
      · obtain rfl := List.mem_singleton.mp hg
        exact ⟨fuel, _, fn, callees, xrefs, (build_sound hbuild).1.symm ▸ hbuild, rfl, rfl⟩)
    (fun fn hfn => absurd hfn List.not_mem_nil) h
  intro fn hfn
  exact hbuilt fn (List.mem_mergeSort.mp hfn)

theorem analyze_mono {fuel larger : ℕ} (hle : fuel ≤ larger) {result : AnalysisResult}
    (h : analyze disasm reader symbolLookup fuel entryPoints = some result) :
    analyze disasm reader symbolLookup larger entryPoints = some result := by
  obtain ⟨a, hrun, hresult⟩ := analyze_eq_some.mp h
  exact analyze_eq_some.mpr ⟨a, Worklist.run_mono
    (fun x data r => visitEntry_mono hle x data r) hle hrun, hresult⟩

/-- What a run returns, where no instruction reaches the end of the address space. -/
theorem analyze_progress (hplaced : WellPlaced (fetch disasm reader)) {fuel : ℕ}
    {result : AnalysisResult}
    (h : analyze disasm reader symbolLookup fuel entryPoints = some result) :
    (∀ e, Callable (fetch disasm reader) entryPoints e → ∃ fn ∈ result.functions, fn.addr = e) ∧
      ∀ fn ∈ result.functions, CanonicalFunction (fetch disasm reader) fn.addr fn := by
  obtain ⟨bound, s, hrun, hprogress, hdone⟩ :=
    run_visitEntry_spec symbolLookup hplaced entryPoints
  have hlarge := analyze_mono (le_max_left fuel bound) h
  rw [analyze, hrun _ (le_max_right fuel bound)] at hlarge
  rw [← Option.some.inj hlarge]
  simp only [List.mem_mergeSort]
  refine ⟨fun e he => ?_, fun fn hfn => (hprogress.analyzed fn hfn).canonical⟩
  exact (hprogress.mem_analyzed_iff e).mp ((hprogress.mem_analyzed_iff_callable hdone).mpr he)

end Analyze

end Irida.Analysis
