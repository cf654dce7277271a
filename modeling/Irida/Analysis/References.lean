import Irida.Analysis.Soundness

/-!
# References and the order of analysis

The references of `analyze` are those that the single functions make, one function
after the other: `build` appends to the references that it is given and does not
look at them (`build_withRefs`).  So what it returns for an entry is a
value of the entry alone (`Built`), and the result of `analyze` is put together from
these values (`Assembled`), in the order in which the entries are taken from the queue.

It follows that the references are, as a set, those of the reachable
transfers (`analyze_xrefs`), and that the order of the entry points does not matter
(`analyze_order`).
-/

namespace Irida.Analysis

open Disasm

/-! ## Old references -/

/-- The builder, behind references that were there before. -/
def Builder.withRefs (old : List Xref) (b : Builder) : Builder :=
  { b with xrefs := old ++ b.xrefs }

section Frame

variable {disasm : Disassembler} {reader : ByteReader}

theorem traceLoop_withRefs (old : List Xref) (start : U64) (fuel : ℕ) (pc : U64)
    (bb : BasicBlock) (b : Builder) :
    traceLoop disasm reader start fuel pc bb (b.withRefs old) =
      (traceLoop disasm reader start fuel pc bb b).map fun r => (r.1, r.2.withRefs old) := by
  induction fuel generalizing pc bb b with
  | zero => rfl
  | succ fuel ih =>
      have hleaders : (b.withRefs old).leaders = b.leaders := rfl
      -- the old references stay in front whatever the loop records
      have hpush : ∀ site target kind, (b.withRefs old).pushXref site target kind =
          (b.pushXref site target kind).withRefs old := by
        intro site target kind
        simp [Builder.pushXref, Builder.withRefs]
      have hadd : ∀ (b : Builder) l, (b.withRefs old).addLeader l = (b.addLeader l).withRefs old :=
        fun _ _ => rfl
      have hcall : ∀ (b : Builder) l,
          (b.withRefs old).pushCallee l = (b.pushCallee l).withRefs old := fun _ _ => rfl
      unfold traceLoop
      rw [hleaders]
      split
      · rfl
      dsimp only
      split
      · rfl
      cases disasm.decodeOne (reader.read pc kReadWindow) pc with
      | error e => rfl
      | ok insn =>
          dsimp only
          cases insn.flow <;> by_cases htarget : insn.branchTarget ≠ 0 <;>
            simp only [htarget, if_true, if_false, not_false_eq_true, hpush, hadd, hcall, ih,
              ne_eq, Option.map_some]

theorem visitBlock_withRefs (old : List Xref) (fuel : ℕ) (start : U64) (b : Builder) :
    visitBlock disasm reader fuel start (b.withRefs old) =
      (visitBlock disasm reader fuel start b).map fun r => (r.1.withRefs old, r.2) := by
  have hblocks : (b.withRefs old).blocks = b.blocks := rfl
  unfold visitBlock
  rw [hblocks]
  split
  · rfl
  rw [traceBlock, traceLoop_withRefs, ← traceBlock]
  cases traceBlock disasm reader fuel start b with
  | none => rfl
  | some r => rfl

/-- **`build` appends its references** to those it is given, and nothing else
depends on these. -/
theorem build_withRefs (fuel : ℕ) (entry : U64) (old : List Xref) :
    build disasm reader fuel entry old =
      (build disasm reader fuel entry []).map fun r => (r.1, r.2.1, old ++ r.2.2) := by
  have hrun := Worklist.run_map (@visitBlock_withRefs disasm reader old fuel) fuel
    ⟨[entry], {entry}, { leaders := (∅ : Std.ExtTreeSet U64).insert entry }⟩
  have hstart : (⟨[entry], {entry}, { leaders := (∅ : Std.ExtTreeSet U64).insert entry }⟩ :
      Worklist.State U64 Builder).map (Builder.withRefs old) =
      ⟨[entry], {entry}, { leaders := (∅ : Std.ExtTreeSet U64).insert entry, xrefs := old }⟩ := by
    simp [Worklist.State.map, Builder.withRefs]
  rw [hstart] at hrun
  unfold build
  dsimp only
  rw [hrun]
  cases Worklist.run (visitBlock disasm reader fuel) fuel
      ⟨[entry], {entry}, { leaders := (∅ : Std.ExtTreeSet U64).insert entry }⟩ with
  | none => rfl
  | some b =>
      have hfinal : finalize fuel entry (b.withRefs old) = finalize fuel entry b := rfl
      simp only [Option.map_some, hfinal]
      cases finalize fuel entry b with
      | none => rfl
      | some fn => rfl

end Frame

/-! ## Putting the result together -/

/-- What `build` returns for an entry: the canonical function, and the call targets and the
references of its reachable instructions. -/
structure Built (disasm : Disassembler) (reader : ByteReader) (entry : U64)
    (r : Function × List U64 × List Xref) : Prop where
  run : ∃ bound, ∀ fuel ≥ bound, build disasm reader fuel entry [] = some r
  canonical : CanonicalFunction (fetch disasm reader) entry r.1
  mem_xrefs_iff : ∀ x, x ∈ r.2.2 ↔ ∃ a insn, Reached (fetch disasm reader) entry a ∧
    fetch disasm reader a = some insn ∧ x ∈ refs insn

/-- The function that `analyze` makes of it. -/
def finished (symbolLookup : Option (U64 → Option String)) (entry : U64)
    (r : Function × List U64 × List Xref) : Function :=
  { r.1 with
    callees := sortUnique r.2.1
    name := functionName symbolLookup entry r.1.name }

theorem CanonicalFunction.finished {fetch : U64 → Option Instruction} {entry : U64}
    {r : Function × List U64 × List Xref} (h : CanonicalFunction fetch entry r.1)
    (symbolLookup : Option (U64 → Option String)) :
    CanonicalFunction fetch entry (finished symbolLookup entry r) :=
  ⟨h.addr, h.sorted, h.mem_addr_iff, h.blocks⟩

/-- The result of `analyze` so far consists of what `build` returns for the entries
that were analyzed, in some order. -/
def Assembled (symbolLookup : Option (U64 → Option String))
    (built : U64 → Function × List U64 × List Xref) (a : AnalyzeState) : Prop :=
  ∃ order : List U64, order.Nodup ∧ (∀ e, e ∈ order ↔ e ∈ a.analyzed) ∧
    a.result.functions = order.map (fun e => finished symbolLookup e (built e)) ∧
    a.result.xrefs = order.flatMap fun e => (built e).2.2

section Assemble

variable {disasm : Disassembler} {reader : ByteReader}

theorem exists_built (hplaced : WellPlaced (fetch disasm reader)) :
    ∃ built : U64 → Function × List U64 × List Xref, ∀ e, Built disasm reader e (built e) := by
  choose bound fn s hrun hcanon hdisc hdone using fun e => build_spec hplaced e []
  exact ⟨fun e => (fn e, (s e).data.callees, (s e).data.xrefs), fun e =>
    ⟨⟨bound e, hrun e⟩, hcanon e,
      fun x => (hdisc e).mem_xrefs_iff hplaced.toPlaced (hplaced.nullSafe _) (hdone e)⟩⟩

variable {symbolLookup : Option (U64 → Option String)}
  {built : U64 → Function × List U64 × List Xref}

/-- What `build` returns for an entry is this value, whenever it returns. -/
def BuildsTo (disasm : Disassembler) (reader : ByteReader)
    (built : U64 → Function × List U64 × List Xref) : Prop :=
  ∀ {fuel e r}, build disasm reader fuel e [] = some r → r = built e

theorem exists_buildsTo (disasm : Disassembler) (reader : ByteReader) :
    ∃ built, BuildsTo disasm reader built := by
  have hvalue : ∀ e, ∃ r, ∀ {fuel r'}, build disasm reader fuel e [] = some r' → r' = r := by
    intro e
    by_cases hends : ∃ fuel r, build disasm reader fuel e [] = some r
    · obtain ⟨fuel, r, hr⟩ := hends
      refine ⟨r, fun {fuel' r'} hr' => ?_⟩
      have hlarge := build_mono (le_max_left fuel' fuel) hr'
      rw [build_mono (le_max_right fuel' fuel) hr] at hlarge
      exact (Option.some.inj hlarge).symm
    · exact ⟨({}, [], []), fun {fuel r'} hr' => absurd ⟨fuel, r', hr'⟩ hends⟩
  choose built hbuilt using hvalue
  exact ⟨built, fun {_ e _} h => hbuilt e h⟩

theorem buildsTo_of_built (hbuilt : ∀ e, Built disasm reader e (built e)) :
    BuildsTo disasm reader built := by
  intro fuel e r h
  obtain ⟨bound, hrun⟩ := (hbuilt e).run
  have hmore := build_mono (le_max_left fuel bound) h
  rw [hrun _ (le_max_right fuel bound)] at hmore
  exact (Option.some.inj hmore).symm

/-- A result of `build` is that value behind the old references. -/
theorem BuildsTo.eq_of_build (h : BuildsTo disasm reader built) {fuel : ℕ} {entry : U64}
    {old xrefs : List Xref} {fn : Function} {callees : List U64}
    (hbuild : build disasm reader fuel entry old = some (fn, callees, xrefs)) :
    build disasm reader fuel entry [] = some (built entry) ∧
      fn = (built entry).1 ∧ callees = (built entry).2.1 ∧ xrefs = old ++ (built entry).2.2 := by
  rw [build_withRefs] at hbuild
  obtain ⟨r, hrun, hr⟩ := Option.map_eq_some_iff.mp hbuild
  obtain rfl := h hrun
  obtain ⟨rfl, hrest⟩ := Prod.mk.inj hr
  obtain ⟨rfl, rfl⟩ := Prod.mk.inj hrest
  exact ⟨hrun, rfl, rfl, rfl⟩

theorem assembled_init : Assembled symbolLookup built {} :=
  ⟨[], List.nodup_nil, fun e => by simp, rfl, rfl⟩

theorem Assembled.visit (hbuilt : BuildsTo disasm reader built) {fuel : ℕ}
    {entry : U64} {a a' : AnalyzeState} {found : List U64} (h : Assembled symbolLookup built a)
    (hvisit : visitEntry disasm reader symbolLookup fuel entry a = some (a', found)) :
    Assembled symbolLookup built a' := by
  rcases visitEntry_cases hvisit with ⟨-, rfl, -⟩ | ⟨fn, callees, xrefs, -, hnew, hbuild, rfl, -⟩
  · exact h
  obtain ⟨order, hnodup, hmem, hfunctions, hxrefs⟩ := h
  obtain ⟨-, rfl, rfl, rfl⟩ := hbuilt.eq_of_build hbuild
  refine ⟨order ++ [entry], ?_, fun e => ?_, ?_, ?_⟩
  · rw [List.nodup_append]
    refine ⟨hnodup, List.nodup_singleton entry, ?_⟩
    rintro e he _ hsingle rfl
    rw [List.mem_singleton.mp hsingle] at he
    exact hnew ((hmem entry).mp he)
  · rw [List.mem_append, hmem, List.mem_singleton, Finset.mem_insert, or_comm]
  · rw [List.map_append, ← hfunctions]
    rfl
  · rw [List.flatMap_append, ← hxrefs, List.flatMap_singleton]

/-- The loop of `analyze` ends with everything in place. -/
theorem run_visitEntry_assembled (hplaced : WellPlaced (fetch disasm reader))
    (hbuilt : ∀ e, Built disasm reader e (built e))
    (symbolLookup : Option (U64 → Option String)) (entryPoints : List U64) :
    ∃ bound s, (∀ fuel ≥ bound, Worklist.run (visitEntry disasm reader symbolLookup fuel) fuel
        ⟨entryPoints, entryPoints.toFinset, {}⟩ = some s.data) ∧
      (Progress (fetch disasm reader) entryPoints s ∧ Assembled symbolLookup built s.data) ∧
      s.work = [] := by
  refine Worklist.run_eventually (fun hle => visitEntry_mono hle) _
    (fun s entry rest h hwork => ?_) ⟨Progress.init _ entryPoints, assembled_init⟩
  obtain ⟨fuel, a, found, hvisit, hnext⟩ := h.1.step hplaced hwork
  refine ⟨fuel, a, found, hvisit, hnext, ?_⟩
  rw [Worklist.State.data_enqueueAll]
  exact h.2.visit (buildsTo_of_built hbuilt) hvisit

/-- **What `analyze` returns**: what `build` returns for each callable address, in some
order. -/
theorem analyze_assembled (hplaced : WellPlaced (fetch disasm reader))
    (hbuilt : ∀ e, Built disasm reader e (built e))
    (symbolLookup : Option (U64 → Option String)) (entryPoints : List U64) :
    ∃ bound, ∃ order : List U64, order.Nodup ∧
      (∀ e, e ∈ order ↔ Callable (fetch disasm reader) entryPoints e) ∧
      ∀ fuel ≥ bound, analyze disasm reader symbolLookup fuel entryPoints = some
        { functions := (order.map fun e => finished symbolLookup e (built e)).mergeSort
            fun f g => f.addr ≤ g.addr
          xrefs := order.flatMap fun e => (built e).2.2 } := by
  obtain ⟨bound, s, hrun, ⟨hprogress, order, hnodup, hmem, hfunctions, hxrefs⟩, hdone⟩ :=
    run_visitEntry_assembled hplaced hbuilt symbolLookup entryPoints
  refine ⟨bound, order, hnodup, fun e => ?_, fun fuel hfuel => ?_⟩
  · rw [hmem, hprogress.mem_analyzed_iff_callable hdone]
  · rw [analyze, hrun fuel hfuel, ← hfunctions, ← hxrefs]

theorem mem_functions_iff (hbuilt : ∀ e, Built disasm reader e (built e))
    {order : List U64} {a : U64} :
    a ∈ order ↔ ∃ fn ∈ (order.map fun e => finished symbolLookup e (built e)).mergeSort
      fun f g => f.addr ≤ g.addr, fn.addr = a := by
  have haddr : ∀ e, (finished symbolLookup e (built e)).addr = e :=
    fun e => (hbuilt e).canonical.addr
  constructor
  · intro ha
    exact ⟨_, List.mem_mergeSort.mpr (List.mem_map_of_mem ha), haddr a⟩
  · rintro ⟨fn, hfn, rfl⟩
    obtain ⟨e, he, rfl⟩ := List.mem_map.mp (List.mem_mergeSort.mp hfn)
    rwa [haddr e]

theorem pairwise_functions (hbuilt : ∀ e, Built disasm reader e (built e))
    {order : List U64} (hnodup : order.Nodup) :
    ((order.map fun e => finished symbolLookup e (built e)).mergeSort
      fun f g => f.addr ≤ g.addr).Pairwise fun f g => f.addr < g.addr := by
  refine pairwise_lt_mergeSort (List.pairwise_map.mpr ?_)
  have haddr : ∀ e, (finished symbolLookup e (built e)).addr = e :=
    fun e => (hbuilt e).canonical.addr
  refine hnodup.imp fun {e e'} hne => ?_
  rwa [haddr, haddr]

end Assemble

/-! ## The references, as a set -/

theorem mem_refs_iff {insn : Instruction} {x : Xref} :
    x ∈ refs insn ↔ x.site = insn.address ∧ x.target = insn.branchTarget ∧
      insn.branchTarget ≠ 0 ∧ (x.kind = .call ∧ insn.flow = .call ∨
        x.kind = .jump ∧ (insn.flow = .jump ∨ insn.flow = .condJump)) := by
  obtain ⟨site, target, kind⟩ := x
  unfold refs
  cases hflow : insn.flow <;> simp [direct] <;> grind

/-- **The references are exactly those of the reachable direct transfers.** -/
theorem analyze_xrefs {disasm : Disassembler} {reader : ByteReader} (hlawful : disasm.Lawful)
    (hend : ∀ pc insn, fetch disasm reader pc = some insn →
      insn.address.toNat + insn.length.toNat < 2 ^ 64)
    (symbolLookup : Option (U64 → Option String)) (entryPoints : List U64) :
    ∃ bound result,
      (∀ fuel ≥ bound, analyze disasm reader symbolLookup fuel entryPoints = some result) ∧
      ∀ site target kind, ⟨site, target, kind⟩ ∈ result.xrefs ↔
        ∃ fn ∈ result.functions, Reached (fetch disasm reader) fn.addr site ∧
          ∃ insn, fetch disasm reader site = some insn ∧ target = insn.branchTarget ∧
            insn.branchTarget ≠ 0 ∧ (kind = .call ∧ insn.flow = .call ∨
              kind = .jump ∧ (insn.flow = .jump ∨ insn.flow = .condJump)) := by
  have hplaced := wellPlaced_fetch hlawful hend
  obtain ⟨built, hbuilt⟩ := exists_built hplaced
  obtain ⟨bound, order, -, hmem, hrun⟩ :=
    analyze_assembled hplaced hbuilt symbolLookup entryPoints
  refine ⟨bound, _, hrun, fun site target kind => ?_⟩
  constructor
  -- a reference was found for some entry, at which a function is
  · intro hx
    obtain ⟨e, he, hx⟩ := List.mem_flatMap.mp hx
    obtain ⟨a, insn, ha, hinsn, hx⟩ := ((hbuilt e).mem_xrefs_iff _).mp hx
    obtain ⟨hsite, hrefs⟩ := mem_refs_iff.mp hx
    obtain rfl : site = a := hsite.trans (hplaced.address_eq hinsn)
    obtain ⟨fn, hfn, rfl⟩ := (mem_functions_iff hbuilt).mp he
    exact ⟨fn, hfn, ha, insn, hinsn, hrefs⟩
  · rintro ⟨fn, hfn, ha, insn, hinsn, hrefs⟩
    have he := (mem_functions_iff hbuilt).mpr ⟨fn, hfn, rfl⟩
    refine List.mem_flatMap.mpr ⟨fn.addr, he, ?_⟩
    refine ((hbuilt _).mem_xrefs_iff _).mpr ⟨site, insn, ha, hinsn, ?_⟩
    exact mem_refs_iff.mpr ⟨(hplaced.address_eq hinsn).symm, hrefs⟩

theorem analyze_xrefs_small : ∃ bound result,
    (∀ fuel ≥ bound, analyze smallDecoder (imageReader 0x1000 smallImage) none fuel [0x1000] =
      some result) ∧
    ∀ site target kind, ⟨site, target, kind⟩ ∈ result.xrefs ↔
      ∃ fn ∈ result.functions,
        Reached (fetch smallDecoder (imageReader 0x1000 smallImage)) fn.addr site ∧
        ∃ insn, fetch smallDecoder (imageReader 0x1000 smallImage) site = some insn ∧
          target = insn.branchTarget ∧ insn.branchTarget ≠ 0 ∧
          (kind = .call ∧ insn.flow = .call ∨
            kind = .jump ∧ (insn.flow = .jump ∨ insn.flow = .condJump)) :=
  analyze_xrefs smallDecoder_lawful small_fetch_end none [0x1000]

/-! ## The order of the entry points -/

theorem Callable.mono {fetch : U64 → Option Instruction} {entryPoints entryPoints' : List U64}
    (hsub : ∀ e ∈ entryPoints, e ∈ entryPoints') {e : U64} (h : Callable fetch entryPoints e) :
    Callable fetch entryPoints' e := by
  induction h with
  | entry he hne => exact .entry (hsub _ he) hne
  | call _ ha hinsn hc ih => exact .call ih ha hinsn hc

/-- **The order of analysis does not matter**: for two lists with the same entry
points, the functions are the same, and the references are up to their order. -/
theorem analyze_order {disasm : Disassembler} {reader : ByteReader} (hlawful : disasm.Lawful)
    (hend : ∀ pc insn, fetch disasm reader pc = some insn →
      insn.address.toNat + insn.length.toNat < 2 ^ 64)
    (symbolLookup : Option (U64 → Option String)) {entryPoints entryPoints' : List U64}
    (hsame : ∀ e, e ∈ entryPoints ↔ e ∈ entryPoints') :
    ∃ bound result result',
      (∀ fuel ≥ bound, analyze disasm reader symbolLookup fuel entryPoints = some result ∧
        analyze disasm reader symbolLookup fuel entryPoints' = some result') ∧
      result.functions = result'.functions ∧ result.xrefs.Perm result'.xrefs := by
  have hplaced := wellPlaced_fetch hlawful hend
  obtain ⟨built, hbuilt⟩ := exists_built hplaced
  obtain ⟨bound, order, hnodup, hmem, hrun⟩ :=
    analyze_assembled hplaced hbuilt symbolLookup entryPoints
  obtain ⟨bound', order', hnodup', hmem', hrun'⟩ :=
    analyze_assembled hplaced hbuilt symbolLookup entryPoints'
  have hperm : order.Perm order' := by
    rw [List.perm_ext_iff_of_nodup hnodup hnodup']
    intro e
    rw [hmem, hmem']
    exact ⟨fun h => h.mono fun e he => (hsame e).mp he,
      fun h => h.mono fun e he => (hsame e).mpr he⟩
  refine ⟨max bound bound', _, _, fun fuel hfuel => ⟨hrun fuel (le_of_max_le_left hfuel),
    hrun' fuel (le_of_max_le_right hfuel)⟩, ?_, hperm.flatMap_right _⟩
  -- both lists of functions are sorted, so they are the same list
  refine List.Perm.eq_of_pairwise (fun f g _ _ hfg hgf => ?_)
    (pairwise_functions hbuilt hnodup) (pairwise_functions hbuilt hnodup') ?_
  · exact absurd (BitVec.lt_trans hfg hgf) (BitVec.lt_irrefl _)
  · have hmap := hperm.map fun e => finished symbolLookup e (built e)
    exact (List.mergeSort_perm _ _).trans (hmap.trans (List.mergeSort_perm _ _).symm)

theorem analyze_order_small : ∃ bound result result',
    (∀ fuel ≥ bound, analyze smallDecoder (imageReader 0x1000 smallImage) none fuel
        [0x1000, 0x1005] = some result ∧
      analyze smallDecoder (imageReader 0x1000 smallImage) none fuel
        [0x1005, 0x1000, 0x1005] = some result') ∧
    result.functions = result'.functions ∧ result.xrefs.Perm result'.xrefs := by
  refine analyze_order smallDecoder_lawful small_fetch_end none fun e => ?_
  simp only [List.mem_cons, List.not_mem_nil, or_false]
  tauto

end Irida.Analysis
