import Irida.Analysis.Partition
import Mathlib.Algebra.Order.BigOperators.Group.Finset
import Mathlib.Data.Prod.Lex

/-!
# Termination

The four loops of the analyzer end, each for a reason of its own, as soon as one address of the
address space is not mapped (`analyzer_terminates`).  Nothing is assumed about the code: it may
loop, jump into its own instructions, or run over the end of the address space.

* The loop of `trace_block` comes nearer to the address that is not mapped: no window reaches
  beyond it, so neither does an instruction.
* The worklists of `build` and `analyze` never queue an address twice.
* A step of the split loop of `finalize` gives one more leader a block, or else it leaves the
  leaders with their blocks as they are and takes instructions away (`splitLoop_step`).

The other results about the analyzer assume that no instruction ends beyond the address space, and
say what the loops compute.  Here nothing is said about that.
-/

namespace Irida.Analysis

open Disasm

/-- Only mapped bytes are filled in, from the address on that is read. -/
def ByteReader.ReadsMapped (reader : ByteReader) (mapped : U64 → Prop) : Prop :=
  ∀ addr n i, i < (reader.read addr n).length → mapped (addr + BitVec.ofNat 64 i)

/-! ## Tracing -/

section Trace

variable {disasm : Disassembler} {reader : ByteReader} {mapped : U64 → Prop} {u : U64}

/-- A window does not reach an address that is not mapped. -/
theorem length_window_le (hreader : reader.ReadsMapped mapped) (hunmapped : ¬ mapped u)
    (pc : U64) (n : ℕ) : (reader.read pc n).length ≤ (u - pc).toNat := by
  by_contra hlong
  refine hunmapped ?_
  have hmapped := hreader pc n (u - pc).toNat (Nat.lt_of_not_le hlong)
  rwa [BitVec.ofNat_toNat, BitVec.setWidth_eq, add_comm, BitVec.sub_add_cancel] at hmapped

/-- Behind an instruction the address that is not mapped is nearer. -/
theorem toNat_sub_next_lt (hlawful : disasm.Lawful) (hreader : reader.ReadsMapped mapped)
    (hunmapped : ¬ mapped u) {pc : U64} {insn : Instruction}
    (hfetch : fetch disasm reader pc = some insn) :
    (u - insn.next).toNat < (u - pc).toNat := by
  have hdecode := (decodeOne_of_fetch hfetch).2
  have hpos := hlawful.length_pos hdecode
  have hle : insn.length.toNat ≤ (u - pc).toNat :=
    (hlawful.length_le hdecode).trans (length_window_le hreader hunmapped pc kReadWindow)
  have hlength : (insn.length.setWidth 64).toNat = insn.length.toNat := by
    rw [BitVec.toNat_setWidth, Nat.mod_eq_of_lt (by omega)]
  have hnext : u - insn.next = u - pc - insn.length.setWidth 64 := by
    rw [Instruction.next, hlawful.address_eq hdecode, sub_add_eq_sub_sub]
  rw [hnext, BitVec.toNat_sub_of_le (by rw [BitVec.le_def]; omega)]
  omega

/-- The loop of `trace_block` ends before the address that is not mapped. -/
theorem traceLoop_ends (hlawful : disasm.Lawful) (hreader : reader.ReadsMapped mapped)
    (hunmapped : ¬ mapped u) {start : U64} {fuel : ℕ} :
    ∀ (pc : U64) (bb : BasicBlock) (b : Builder), (u - pc).toNat < fuel →
      ∃ r, traceLoop disasm reader start fuel pc bb b = some r := by
  induction fuel with
  | zero => intro pc bb b hfuel; omega
  | succ fuel ih =>
      intro pc bb b hfuel
      by_cases hstop : pc ≠ start ∧ pc ∈ b.leaders
      · exact ⟨_, by rw [traceLoop, if_pos hstop]⟩
      cases hfetch : fetch disasm reader pc with
      | none => exact ⟨_, traceLoop_of_fetch_none hstop hfetch⟩
      | some insn =>
          have hnearer := toNat_sub_next_lt hlawful hreader hunmapped hfetch
          rw [traceLoop_of_fetch_some hstop hfetch]
          cases hflow : insn.flow
          case sequential | call => exact ih _ _ _ (by omega)
          all_goals exact ⟨_, rfl⟩

theorem traceBlock_ends (hlawful : disasm.Lawful) (hreader : reader.ReadsMapped mapped)
    (hunmapped : ¬ mapped u) (start : U64) (b : Builder) :
    ∃ r, ∀ fuel ≥ 2 ^ 64, traceBlock disasm reader fuel start b = some r := by
  obtain ⟨r, hr⟩ := traceLoop_ends hlawful hreader hunmapped start { addr := start } b
    (u - start).isLt
  exact ⟨r, fun fuel hfuel => traceLoop_mono hfuel hr⟩

theorem discover_ends (hlawful : disasm.Lawful) (hreader : reader.ReadsMapped mapped)
    (hunmapped : ¬ mapped u) (entry : U64) (start : Builder) :
    ∃ b, ∀ fuel > 2 ^ 64,
      Worklist.run (visitBlock disasm reader fuel) fuel ⟨[entry], {entry}, start⟩ = some b := by
  have hvisit : ∀ x data, ∃ data' found,
      visitBlock disasm reader (2 ^ 64 + 1) x data = some (data', found) := by
    intro x data
    by_cases hold : x ∈ data.blocks
    · exact ⟨data, [], if_pos hold⟩
    · obtain ⟨⟨bb, b⟩, htrace⟩ := traceBlock_ends hlawful hreader hunmapped x data
      exact ⟨{ b with blocks := b.blocks.insertIfNew bb.addr bb },
        [bb.jump, bb.fail].filter (· ≠ 0),
        by rw [visitBlock, if_neg hold, htrace _ (Nat.le_succ _)]⟩
  have hpotential : Worklist.State.potential ⟨[entry], {entry}, start⟩ < 2 ^ 64 + 1 := by
    simp only [Worklist.State.potential, List.length_singleton, Finset.card_singleton, card_u64]
    omega
  obtain ⟨s, hrun, -, -⟩ := Worklist.run_spec (fun _ => True) (fun s x rest _ _ => by
    obtain ⟨data, found, hx⟩ := hvisit x s.data
    exact ⟨data, found, hx, trivial⟩) trivial hpotential
  exact ⟨s.data, fun fuel hfuel =>
    Worklist.run_mono (fun x data r => visitBlock_mono hfuel x data r) hfuel hrun⟩

end Trace

/-! ## Splitting -/

section Split

variable (leaders : Std.ExtTreeSet U64) (blocks : Std.ExtTreeMap U64 BasicBlock)

/-- The leaders without a block. -/
def missing : Finset U64 :=
  {l | l ∈ leaders ∧ l ∉ blocks}

/-- The number of instructions of the blocks of a map, under whatever addresses they are. -/
def totalCount : ℕ :=
  ∑ l : U64, instrCount blocks l

variable {leaders blocks} {key leader : U64} {bb : BasicBlock}

theorem length_splitHead_lt (hboundary : leader ∈ bb.instrAddrs) :
    (splitHead bb leader).instrAddrs.length < bb.instrAddrs.length := by
  refine List.length_filter_lt_length_iff_exists.mpr ⟨leader, hboundary, ?_⟩
  simp

theorem card_missing_splitBlock (hkey : key ∈ blocks) (hleader : leader ∈ leaders)
    (hnew : leader ∉ blocks) :
    (missing leaders (splitBlock blocks key bb leader)).card < (missing leaders blocks).card := by
  have hin : leader ∈ missing leaders blocks := by simp [missing, hleader, hnew]
  have hout : leader ∉ missing leaders (splitBlock blocks key bb leader) := by
    simp [missing, mem_splitBlock hkey]
  refine Finset.card_lt_card (Finset.ssubset_iff_subset_ne.mpr ⟨fun l hl => ?_, ?_⟩)
  · simp only [missing, Finset.mem_filter_univ, mem_splitBlock hkey, not_or] at hl ⊢
    exact ⟨hl.1, hl.2.1⟩
  · intro hsame
    rw [hsame] at hout
    exact hout hin

/-- If the leader has a block, then the tail is refused and no other block gets one. -/
theorem missing_splitBlock (hkey : key ∈ blocks) (hold : leader ∈ blocks) :
    missing leaders (splitBlock blocks key bb leader) = missing leaders blocks := by
  ext l
  simp only [missing, Finset.mem_filter_univ, mem_splitBlock hkey]
  refine and_congr_right fun _ => not_congr ⟨?_, Or.inl⟩
  rintro (h | rfl) <;> assumption

/-- Then the block that is cut gets shorter, and no other one changes. -/
theorem totalCount_splitBlock (hbb : blocks[key]? = some bb) (hold : leader ∈ blocks)
    (hboundary : leader ∈ bb.instrAddrs) :
    totalCount (splitBlock blocks key bb leader) < totalCount blocks := by
  have hget := getElem?_splitBlock key bb hold
  have hshort : instrCount (splitBlock blocks key bb leader) key < instrCount blocks key := by
    simp only [instrCount, hget, hbb, if_true]
    exact length_splitHead_lt hboundary
  refine Finset.sum_lt_sum (fun l _ => ?_) ⟨key, Finset.mem_univ key, hshort⟩
  by_cases hl : key = l
  · exact hl ▸ hshort.le
  · rw [instrCount, hget, if_neg hl, instrCount]

/-- What a step of the split loop achieves: one more leader has a block, or the same leaders have
one and the blocks have fewer instructions. -/
theorem splitLoop_step (hbb : blocks[key]? = some bb) (hleader : leader ∈ leaders)
    (hboundary : leader ∈ bb.instrAddrs) :
    toLex ((missing leaders (splitBlock blocks key bb leader)).card,
      totalCount (splitBlock blocks key bb leader)) <
        toLex ((missing leaders blocks).card, totalCount blocks) := by
  have hkey : key ∈ blocks := Std.ExtTreeMap.mem_iff_isSome_getElem?.mpr (by simp [hbb])
  rw [Prod.Lex.toLex_lt_toLex]
  dsimp only
  by_cases hold : leader ∈ blocks
  · right
    rw [missing_splitBlock hkey hold]
    exact ⟨rfl, totalCount_splitBlock hbb hold hboundary⟩
  · left
    exact card_missing_splitBlock hkey hleader hold

/-- The split loop ends, whatever the blocks and the leaders are. -/
theorem splitLoop_ends (leaders : Std.ExtTreeSet U64) (blocks : Std.ExtTreeMap U64 BasicBlock) :
    ∃ fuel r, splitLoop leaders fuel blocks = some r := by
  induction hmeasure : toLex ((missing leaders blocks).card, totalCount blocks) using
    WellFoundedLT.induction generalizing blocks with
  | ind measure ih =>
      cases hfind : findSplit leaders.toList blocks.toList with
      | none => exact ⟨1, blocks, by rw [splitLoop, hfind]⟩
      | some found =>
          obtain ⟨key, bb, leader⟩ := found
          obtain ⟨hbb, hleader, -, -, hboundary⟩ := findSplit_eq_some hfind
          have hless := splitLoop_step hbb hleader hboundary
          rw [hmeasure] at hless
          obtain ⟨fuel, r, hr⟩ := ih _ hless _ rfl
          exact ⟨fuel + 1, r, by rw [splitLoop, hfind]; exact hr⟩

theorem finalize_ends (entry : U64) (b : Builder) :
    ∃ bound fn, ∀ fuel ≥ bound, finalize fuel entry b = some fn := by
  obtain ⟨bound, blocks, hblocks⟩ := splitLoop_ends b.leaders b.blocks
  have hfinal : ∃ fn, finalize bound entry b = some fn := ⟨_, by rw [finalize, hblocks]⟩
  obtain ⟨fn, hfn⟩ := hfinal
  exact ⟨bound, fn, fun fuel hfuel => finalize_mono hfuel hfn⟩

end Split

/-! ## The analyzer -/

section Analyzer

variable {disasm : Disassembler} {reader : ByteReader} {mapped : U64 → Prop} {u : U64}

theorem build_ends (hlawful : disasm.Lawful) (hreader : reader.ReadsMapped mapped)
    (hunmapped : ¬ mapped u) (entry : U64) (old : List Xref) :
    ∃ bound r, ∀ fuel ≥ bound, build disasm reader fuel entry old = some r := by
  obtain ⟨b, hrun⟩ := discover_ends hlawful hreader hunmapped entry
    { leaders := (∅ : Std.ExtTreeSet U64).insert entry, xrefs := old }
  obtain ⟨bound, fn, hfinal⟩ := finalize_ends entry b
  refine ⟨max (2 ^ 64 + 1) bound, (fn, b.callees, b.xrefs), fun fuel hfuel => ?_⟩
  exact build_eq_some.mpr
    ⟨b, hrun fuel (le_of_max_le_left hfuel), hfinal fuel (le_of_max_le_right hfuel), rfl, rfl⟩

theorem analyze_ends (hlawful : disasm.Lawful) (hreader : reader.ReadsMapped mapped)
    (hunmapped : ¬ mapped u) (symbolLookup : Option (U64 → Option String))
    (entryPoints : List U64) :
    ∃ bound result, ∀ fuel ≥ bound,
      analyze disasm reader symbolLookup fuel entryPoints = some result := by
  have hvisit : ∀ entry a, ∃ fuel a' found,
      visitEntry disasm reader symbolLookup fuel entry a = some (a', found) := by
    intro entry a
    by_cases hold : entry = 0 ∨ entry ∈ a.analyzed
    · exact ⟨0, a, [], if_pos hold⟩
    · obtain ⟨bound, ⟨fn, callees, xrefs⟩, hbuild⟩ :=
        build_ends hlawful hreader hunmapped entry a.result.xrefs
      have hended : visitEntry disasm reader symbolLookup bound entry a ≠ none := by
        simp only [visitEntry, if_neg hold, hbuild bound le_rfl]
        split <;> exact Option.some_ne_none _
      obtain ⟨⟨a', found⟩, hvisited⟩ := Option.ne_none_iff_exists'.mp hended
      exact ⟨bound, a', found, hvisited⟩
  obtain ⟨bound, s, hrun, -, -⟩ := Worklist.run_eventually (fun hle => visitEntry_mono hle)
    (fun _ => True) (fun s x rest _ _ => by
      obtain ⟨fuel, a, found, hx⟩ := hvisit x s.data
      exact ⟨fuel, a, found, hx, trivial⟩)
    (s := ⟨entryPoints, entryPoints.toFinset, {}⟩) trivial
  exact ⟨bound, _, fun fuel hfuel => by rw [analyze, hrun fuel hfuel]⟩

/-- **The analyzer terminates** if no byte is read that is not mapped, and one address is not: the
tracing of every block, from every state of the builder, the worklist of `build`, the split loop of
`finalize`, and the worklist of `analyze`. -/
theorem analyzer_terminates (hlawful : disasm.Lawful) (hreader : reader.ReadsMapped mapped)
    (hunmapped : ¬ mapped u) (symbolLookup : Option (U64 → Option String)) :
    (∀ start b, ∃ r, ∀ fuel ≥ 2 ^ 64, traceBlock disasm reader fuel start b = some r) ∧
    (∀ entry start, ∃ b, ∀ fuel > 2 ^ 64,
      Worklist.run (visitBlock disasm reader fuel) fuel ⟨[entry], {entry}, start⟩ = some b) ∧
    (∀ entry b, ∃ bound fn, ∀ fuel ≥ bound, finalize fuel entry b = some fn) ∧
    (∀ entry old, ∃ bound r, ∀ fuel ≥ bound, build disasm reader fuel entry old = some r) ∧
    ∀ entryPoints, ∃ bound result, ∀ fuel ≥ bound,
      analyze disasm reader symbolLookup fuel entryPoints = some result :=
  ⟨traceBlock_ends hlawful hreader hunmapped, discover_ends hlawful hreader hunmapped,
    finalize_ends, build_ends hlawful hreader hunmapped,
    analyze_ends hlawful hreader hunmapped symbolLookup⟩

end Analyzer

/-- The `nop`s at the two ends of the address space and the jump behind them are all that is
mapped. -/
theorem wrapReader_readsMapped :
    wrapReader.ReadsMapped fun a => 0xFFFFFFFFFFFFFFFC ≤ a ∨ a < 3 := by
  intro addr n i hi
  simp only [wrapReader] at hi
  split at hi
  · next hhigh =>
      left
      rw [List.length_replicate] at hi
      rw [BitVec.le_def] at hhigh ⊢
      have hsum : (addr + BitVec.ofNat 64 i).toNat = addr.toNat + i := by
        rw [BitVec.toNat_add, BitVec.toNat_ofNat]
        omega
      omega
  · right
    rw [List.length_take, List.length_drop, List.length_cons, List.length_cons, List.length_cons,
      List.length_nil] at hi
    rw [BitVec.lt_def, BitVec.toNat_add, BitVec.toNat_ofNat, show (3 : U64).toNat = 3 from rfl]
    omega

/-- The analysis of a loop that runs over the end of the address space ends. -/
theorem analyzer_terminates_wrap :
    (∀ start b, ∃ r, ∀ fuel ≥ 2 ^ 64, traceBlock smallDecoder wrapReader fuel start b = some r) ∧
    (∀ entry start, ∃ b, ∀ fuel > 2 ^ 64,
      Worklist.run (visitBlock smallDecoder wrapReader fuel) fuel ⟨[entry], {entry}, start⟩ =
        some b) ∧
    (∀ entry b, ∃ bound fn, ∀ fuel ≥ bound, finalize fuel entry b = some fn) ∧
    (∀ entry old, ∃ bound r, ∀ fuel ≥ bound,
      build smallDecoder wrapReader fuel entry old = some r) ∧
    ∀ entryPoints, ∃ bound result, ∀ fuel ≥ bound,
      analyze smallDecoder wrapReader none fuel entryPoints = some result :=
  analyzer_terminates smallDecoder_lawful wrapReader_readsMapped
    (show ¬ ((0xFFFFFFFFFFFFFFFC : U64) ≤ 0x1000 ∨ (0x1000 : U64) < 3) by decide) none

end Irida.Analysis
