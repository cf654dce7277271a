import Irida.Analysis.References

/-!
# What an analysis visits

`analyze` takes the functions that it builds from a worklist, and `build` takes the leaders that it
traces from another one.  `Taken` and `Traces` name the states before these visits, and what a run
returns is put in terms of them here: a function for each address taken (`taken_iff`), and the
references of what the calls of `trace_block` have ahead of them (`build_xrefs`).

Nothing is asked of the code.  An instruction may end at the end of the address space or behind it,
and a run may not end at all; the results are about those that do.

* A run that is traced over the end of the address space has no order of addresses to go by.  What
  takes its place is that a chain without barriers is determined by where it starts
  (`Chain.eq_of_barrier`).
* The null address may become a leader that is never queued.  Where there is code behind it, whether
  it is found depends on which leaders are traced first, so that only the states themselves say what
  is found (`NullSafe` is the rest).
-/

namespace Irida.Analysis

open Disasm

/-! ## What lies ahead -/

/-- Decoding goes on from `start` to an address, without meeting a leader of another block. -/
def Ahead (fetch : U64 → Option Instruction) (leaders : Std.ExtTreeSet U64) (start : U64) :
    U64 → Prop :=
  Relation.ReflTransGen (fun a b => FallsInto fetch a b ∧ ¬ (b ≠ start ∧ b ∈ leaders)) start

section Chains

variable {fetch : U64 → Option Instruction} {a i : U64} {insns : List Instruction} {exit : Exit}
  {insn : Instruction} {barrier : U64 → Prop}

/-- The instructions of a chain that only barriers cut are those ahead. -/
theorem Chain.mem_iff_ahead (hplaced : Placed fetch) (h : Chain fetch a insns exit)
    (ha : ¬ barrier a) (hfree : ∀ insn ∈ insns, ¬ barrier insn.address)
    (hcut : ∀ {next}, exit = .cut next → barrier next) (hinsn : fetch i = some insn) :
    insn ∈ insns ↔ Relation.ReflTransGen (fun a b => FallsInto fetch a b ∧ ¬ barrier b) a i := by
  -- a chain of one instruction that does not fall through
  have hone : ∀ {a : U64} {first : Instruction}, fetch a = some first → ¬ FallsThrough first →
      (insn ∈ [first] ↔
        Relation.ReflTransGen (fun a b => FallsInto fetch a b ∧ ¬ barrier b) a i) := by
    intro a first hfirst hends
    rw [List.mem_singleton]
    constructor
    · rintro rfl
      rw [← hplaced.address_eq hinsn, ← hplaced.address_eq hfirst]
    · intro hahead
      rcases hahead.cases_head with rfl | ⟨c, ⟨⟨other, hother, hfalls, -⟩, -⟩, -⟩
      · exact Option.some.inj (hinsn.symm.trans hfirst)
      · rw [Option.some.inj (hother.symm.trans hfirst)] at hfalls
        exact absurd hfalls hends
  induction h with
  | @dead a hnone =>
      refine iff_of_false List.not_mem_nil fun hahead => ?_
      rcases hahead.cases_head with rfl | ⟨c, ⟨⟨other, hother, -, -⟩, -⟩, -⟩
      · rw [hnone] at hinsn
        cases hinsn
      · rw [hnone] at hother
        cases hother
  | cut => exact absurd (hcut rfl) ha
  | jump hfirst hflow | condJump hfirst hflow | ret hfirst hflow =>
      exact hone hfirst (by simp [FallsThrough, hflow])
  | @more a first insns exit hfirst hfalls hrest ih =>
      rw [List.forall_mem_cons] at hfree
      have hstep : FallsInto fetch a first.next := ⟨first, hfirst, hfalls, rfl⟩
      have hnext : insn ∈ insns ↔ ¬ barrier first.next ∧
          Relation.ReflTransGen (fun a b => FallsInto fetch a b ∧ ¬ barrier b) first.next i := by
        by_cases hbarrier : barrier first.next
        · -- the chain goes no further
          refine iff_of_false (fun hmem => ?_) fun hboth => hboth.1 hbarrier
          obtain ⟨head, tail, rfl⟩ := List.exists_cons_of_ne_nil (List.ne_nil_of_mem hmem)
          have hhead := hrest.head_address hplaced
          exact hfree.2 head (List.mem_cons_self ..) (hhead ▸ hbarrier)
        · exact Iff.trans (ih hbarrier hfree.2 hcut) (and_iff_right hbarrier).symm
      rw [List.mem_cons, hnext]
      constructor
      · rintro (rfl | ⟨hbarrier, hahead⟩)
        · rw [← hplaced.address_eq hinsn, ← hplaced.address_eq hfirst]
        · exact .head ⟨hstep, hbarrier⟩ hahead
      · intro hahead
        rcases hahead.cases_head with rfl | ⟨c, ⟨⟨other, hother, -, rfl⟩, hbarrier⟩, hahead⟩
        · exact Or.inl (Option.some.inj (hinsn.symm.trans hfirst))
        · obtain rfl := Option.some.inj (hother.symm.trans hfirst)
          exact Or.inr ⟨hbarrier, hahead⟩

/-- A chain that only barriers cut goes through no address twice. -/
theorem Chain.nodup_addresses (hplaced : Placed fetch) (h : Chain fetch a insns exit)
    (hfree : ∀ insn ∈ insns, ¬ barrier insn.address)
    (hcut : ∀ {next}, exit = .cut next → barrier next) :
    (insns.map Instruction.address).Nodup := by
  induction h with
  | dead _ | cut => exact List.nodup_nil
  | jump _ _ | condJump _ _ | ret _ _ => exact List.nodup_singleton _
  | @more a first insns exit hfirst hfalls hrest ih =>
      have hwhole : Chain fetch first.address (first :: insns) exit := by
        rw [hplaced.address_eq hfirst]
        exact .more hfirst hfalls hrest
      rw [List.map_cons, List.nodup_cons]
      refine ⟨fun hmem => ?_, ih (fun insn hinsn => hfree insn (List.mem_cons_of_mem _ hinsn)) hcut⟩
      -- from the second time on the chain would be the whole of it again
      obtain ⟨other, hother, haddr⟩ := List.mem_map.mp hmem
      obtain ⟨before, after, rfl⟩ := List.append_of_mem hother
      have hagain := (hrest.suffix hplaced)
      rw [haddr] at hagain
      have hsame := hwhole.eq_of_barrier hplaced hagain hfree
        (fun insn hinsn => hfree insn (List.mem_cons_of_mem _ (List.mem_append_right _ hinsn)))
        hcut hcut
      have hlength := congrArg List.length hsame
      simp only [List.length_cons, List.length_append] at hlength
      omega

section Traced

variable {leaders : Std.ExtTreeSet U64} {start : U64}

theorem Traced.notMem (h : Traced fetch leaders start a insns exit) :
    ∀ insn ∈ insns, ¬ (insn.address ≠ start ∧ insn.address ∈ leaders) :=
  fun insn hinsn hk => h.clear insn hinsn hk.1 hk.2

/-- **What is traced is what lies ahead.** -/
theorem Traced.mem_iff (hplaced : Placed fetch) (h : Traced fetch leaders start start insns exit)
    (hinsn : fetch i = some insn) : insn ∈ insns ↔ Ahead fetch leaders start i :=
  @Chain.mem_iff_ahead fetch start i insns exit insn (fun k => k ≠ start ∧ k ∈ leaders) hplaced
    h.chain (fun hk => hk.1 rfl) h.notMem (fun hcut => (h.cut_mem hcut).symm) hinsn

theorem Traced.nodup_addresses (hplaced : Placed fetch)
    (h : Traced fetch leaders start start insns exit) : (insns.map Instruction.address).Nodup :=
  @Chain.nodup_addresses fetch start insns exit (fun k => k ≠ start ∧ k ∈ leaders) hplaced h.chain
    h.notMem fun hcut => (h.cut_mem hcut).symm

end Traced

end Chains

/-! ## The calls of `trace_block` -/

/-- The state in which the worklist loop of `build` starts. -/
def buildStart (entry : U64) : Worklist.State U64 Builder :=
  ⟨[entry], {entry}, { leaders := (∅ : Std.ExtTreeSet U64).insert entry }⟩

section Build

variable (disasm : Disassembler) (reader : ByteReader) (entry : U64)

/-- The states that the worklist loop of `build` goes through. -/
abbrev Builds : Worklist.State U64 Builder → Prop :=
  Worklist.Passes (visitBlock disasm reader) (buildStart entry)

/-- `build` calls `trace_block` for a leader, in this state of the builder, but for the references
of earlier functions. -/
def Traces (start : U64) (b : Builder) : Prop :=
  ∃ s rest, Builds disasm reader entry s ∧ s.work = start :: rest ∧ s.data = b ∧ start ∉ b.blocks

/-- An instruction is decoded for a function: a call of `trace_block` has it ahead. -/
def DecodedFor (i : U64) : Prop :=
  ∃ start b, Traces disasm reader entry start b ∧ Ahead (fetch disasm reader) b.leaders start i

variable {disasm reader entry} {s : Worklist.State U64 Builder} {b : Builder} {start : U64}
  {rest found : List U64} {fuel : ℕ}

theorem visitBlock_traced (hplaced : Placed (fetch disasm reader)) {data : Builder}
    (h : visitBlock disasm reader fuel start data = some (b, found)) :
    (start ∈ data.blocks ∧ b = data ∧ found = []) ∨ start ∉ data.blocks ∧ ∃ insns exit,
      Traced (fetch disasm reader) data.leaders start start insns exit ∧
      b = { data.record insns exit with
        blocks := data.blocks.insertIfNew start (blockOf start insns exit) } := by
  by_cases hstart : start ∈ data.blocks
  · rw [visitBlock, if_pos hstart] at h
    cases h
    exact Or.inl ⟨hstart, rfl, rfl⟩
  · refine Or.inr ⟨hstart, ?_⟩
    rcases visitBlock_cases h with ⟨hmem, -, -⟩ | ⟨bb, traced, htrace, rfl, -⟩
    · exact absurd hmem hstart
    · obtain ⟨insns, exit, htraced, hr⟩ := traceBlock_traced hplaced htrace
      obtain ⟨rfl, rfl⟩ := Prod.mk.inj hr
      exact ⟨insns, exit, htraced, rfl⟩

theorem Builds.discovered (hplaced : Placed (fetch disasm reader))
    (h : Builds disasm reader entry s) : Discovered (fetch disasm reader) entry [] s := by
  induction h with
  | start => exact Discovered.init _ entry []
  | visit _ hwork hvisit ih => exact ih.visit hplaced hwork hvisit

theorem DecodedFor.reached (hplaced : Placed (fetch disasm reader)) {i : U64}
    (h : DecodedFor disasm reader entry i) (hi : (fetch disasm reader i).isSome) :
    Reached (fetch disasm reader) entry i := by
  obtain ⟨start, b, ⟨s, rest, hpasses, hwork, rfl, -⟩, hahead⟩ := h
  have hdisc := hpasses.discovered hplaced
  have hleader := hdisc.sound start (hdisc.queued_leader start
    (hdisc.work_queued start (Worklist.State.head_mem_work hwork)))
  have hentered : ∀ c, Ahead (fetch disasm reader) s.data.leaders start c →
      Entered (fetch disasm reader) entry c := by
    intro c hc
    induction hc with
    | refl => exact hleader.reached
    | tail _ hstep ih =>
        obtain ⟨⟨insn, hinsn, hfalls, rfl⟩, -⟩ := hstep
        exact ih.next hinsn (Or.inl hfalls)
  exact hentered i hahead hi

/-- The references and the call targets only get more. -/
structure Builder.Grows (b b' : Builder) : Prop where
  callees : b.callees <+: b'.callees
  xrefs : b.xrefs <+: b'.xrefs

theorem Builder.Grows.trans {b'' : Builder} {b b' : Builder} (h : b.Grows b')
    (h' : b'.Grows b'') : b.Grows b'' :=
  ⟨h.callees.trans h'.callees, h.xrefs.trans h'.xrefs⟩

theorem visitBlock_grows (hplaced : Placed (fetch disasm reader)) {data : Builder}
    (h : visitBlock disasm reader fuel start data = some (b, found)) : data.Grows b := by
  rcases visitBlock_traced hplaced h with ⟨-, rfl, -⟩ | ⟨-, insns, exit, -, rfl⟩
  · exact ⟨List.prefix_rfl, List.prefix_rfl⟩
  · exact ⟨List.prefix_append _ _, List.prefix_append _ _⟩

/-- **A call of `trace_block` in a run that ends**: it returns, and what it records stays. -/
theorem Traces.recorded (hplaced : Placed (fetch disasm reader))
    (h : Traces disasm reader entry start b) {steps : ℕ} {result : Builder}
    (hrun : Worklist.run (visitBlock disasm reader fuel) steps (buildStart entry) = some result) :
    ∃ insns exit, Traced (fetch disasm reader) b.leaders start start insns exit ∧
      (b.record insns exit).Grows result := by
  obtain ⟨s, rest, hpasses, hwork, rfl, hstart⟩ := h
  obtain ⟨steps', hrun'⟩ := hpasses.run_eq (fun hle => visitBlock_mono hle) hrun
  obtain ⟨data, found, steps'', hvisit, hrest⟩ := Worklist.run_cons hrun' hwork
  obtain ⟨final, rfl, hgrows, -⟩ := Worklist.run_invariant (fun s => data.Grows s.data)
    (fun s x rest data' found hs _ hvisit => by
      rw [Worklist.State.data_enqueueAll]
      exact hs.trans (visitBlock_grows hplaced hvisit))
    (show data.Grows _ by
      rw [Worklist.State.data_enqueueAll]
      exact ⟨List.prefix_rfl, List.prefix_rfl⟩) hrest
  rcases visitBlock_traced hplaced hvisit with ⟨hmem, -, -⟩ | ⟨-, insns, exit, htraced, rfl⟩
  · exact absurd hmem hstart
  · exact ⟨insns, exit, htraced, hgrows.callees, hgrows.xrefs⟩

/-- What the instructions decoded for a function yield. -/
def Yielded {α : Type*} (disasm : Disassembler) (reader : ByteReader) (entry : U64)
    (f : Instruction → List α) (x : α) : Prop :=
  ∃ i insn, DecodedFor disasm reader entry i ∧ fetch disasm reader i = some insn ∧ x ∈ f insn

theorem Traced.yielded (hplaced : Placed (fetch disasm reader)) {insns : List Instruction}
    {exit : Exit} (h : Traced (fetch disasm reader) b.leaders start start insns exit)
    (htraces : Traces disasm reader entry start b) {α : Type*} {f : Instruction → List α} {x : α}
    (hx : x ∈ insns.flatMap f) : Yielded disasm reader entry f x := by
  obtain ⟨insn, hinsn, hx⟩ := List.mem_flatMap.mp hx
  have hfetch := h.chain.fetch_eq hplaced insn hinsn
  exact ⟨insn.address, insn, ⟨start, b, htraces, (h.mem_iff hplaced hfetch).mp hinsn⟩, hfetch, hx⟩

theorem Builds.sound (hplaced : Placed (fetch disasm reader))
    (h : Builds disasm reader entry s) :
    (∀ x ∈ s.data.xrefs, Yielded disasm reader entry refs x) ∧
      ∀ c ∈ s.data.callees, Yielded disasm reader entry callTargets c := by
  induction h with
  | start => exact ⟨fun x hx => absurd hx List.not_mem_nil, fun c hc => absurd hc List.not_mem_nil⟩
  | @visit s start rest fuel b found hs hwork hvisit ih =>
      rw [Worklist.State.data_enqueueAll]
      rcases visitBlock_traced hplaced hvisit with ⟨-, rfl, -⟩ | ⟨hstart, insns, exit, htraced, rfl⟩
      · exact ih
      · have htraces : Traces disasm reader entry start s.data :=
          ⟨s, rest, hs, hwork, rfl, hstart⟩
        exact ⟨fun x hx => (List.mem_append.mp hx).elim (ih.1 x) (htraced.yielded hplaced htraces),
          fun c hc => (List.mem_append.mp hc).elim (ih.2 c) (htraced.yielded hplaced htraces)⟩

theorem Yielded.recorded (hplaced : Placed (fetch disasm reader)) {steps : ℕ} {result : Builder}
    (hrun : Worklist.run (visitBlock disasm reader fuel) steps (buildStart entry) = some result)
    {α : Type*} {f : Instruction → List α} {x : α} (h : Yielded disasm reader entry f x) :
    ∃ b insns exit, (Builder.record b insns exit).Grows result ∧ x ∈ insns.flatMap f := by
  obtain ⟨i, insn, ⟨start, b, htraces, hahead⟩, hinsn, hx⟩ := h
  obtain ⟨insns, exit, htraced, hgrows⟩ := htraces.recorded hplaced hrun
  have hmem := (htraced.mem_iff hplaced hinsn).mpr hahead
  exact ⟨b, insns, exit, hgrows, List.mem_flatMap.mpr ⟨insn, hmem, hx⟩⟩

/-- **What `build` returns**: the references and the call targets of the instructions that it has
decoded. -/
theorem build_yields (hplaced : Placed (fetch disasm reader))
    {r : Function × List U64 × List Xref} (h : build disasm reader fuel entry [] = some r) :
    (∀ x, x ∈ r.2.2 ↔ Yielded disasm reader entry refs x) ∧
      ∀ c, c ∈ r.2.1 ↔ Yielded disasm reader entry callTargets c := by
  obtain ⟨fn, callees, xrefs⟩ := r
  obtain ⟨result, hrun, -, rfl, rfl⟩ := build_eq_some.mp h
  obtain ⟨s, hpasses, -, hs⟩ := Worklist.Passes.of_run hrun
  have hsound := Builds.sound hplaced hpasses
  rw [hs] at hsound
  refine ⟨fun x => ⟨hsound.1 x, fun hx => ?_⟩, fun c => ⟨hsound.2 c, fun hc => ?_⟩⟩
  · obtain ⟨b, insns, exit, hgrows, hx⟩ := hx.recorded hplaced hrun
    exact hgrows.xrefs.subset (List.mem_append_right _ hx)
  · obtain ⟨b, insns, exit, hgrows, hc⟩ := hc.recorded hplaced hrun
    exact hgrows.callees.subset (List.mem_append_right _ hc)

/-- If no code is lost with the null address, everything that is reachable is decoded. -/
theorem yielded_callTargets_iff (hplaced : Placed (fetch disasm reader))
    (hnull : NullSafe (fetch disasm reader) entry) {r : Function × List U64 × List Xref}
    (h : build disasm reader fuel entry [] = some r) {c : U64} :
    Yielded disasm reader entry callTargets c ↔ Called (fetch disasm reader) entry c := by
  rw [← (build_yields hplaced h).2]
  obtain ⟨fn, callees, xrefs⟩ := r
  obtain ⟨result, hrun, -, rfl, -⟩ := build_eq_some.mp h
  obtain ⟨s, hpasses, hdone, rfl⟩ := Worklist.Passes.of_run hrun
  exact (Builds.discovered hplaced hpasses).mem_callees_iff hplaced hnull hdone

end Build

/-! ## The functions that are built -/

/-- The addresses that `analyze` builds a function for: the entry points other than null, and the
call targets of what is decoded for one of them. -/
inductive Taken (disasm : Disassembler) (reader : ByteReader) (entryPoints : List U64) : U64 → Prop
  | entry {e : U64} : e ∈ entryPoints → e ≠ 0 → Taken disasm reader entryPoints e
  | call {e c : U64} : Taken disasm reader entryPoints e →
      Yielded disasm reader e callTargets c → Taken disasm reader entryPoints c

/-- The invariant of the worklist loop of `analyze`. -/
structure Collected (disasm : Disassembler) (reader : ByteReader)
    (symbolLookup : Option (U64 → Option String)) (entryPoints : List U64)
    (built : U64 → Function × List U64 × List Xref) (s : Worklist.State U64 AnalyzeState) :
    Prop where
  assembled : Assembled symbolLookup built s.data
  ran : ∀ e ∈ s.data.analyzed, ∃ fuel, build disasm reader fuel e [] = some (built e)
  taken : ∀ e ∈ s.data.analyzed, Taken disasm reader entryPoints e
  queued : ∀ e ∈ s.queued, e ≠ 0 → Taken disasm reader entryPoints e
  entry_queued : ∀ e ∈ entryPoints, e ∈ s.queued
  callees_queued : ∀ e ∈ s.data.analyzed, ∀ c ∈ (built e).2.1, c ∈ s.queued
  work_queued : ∀ e ∈ s.work, e ∈ s.queued
  covered : ∀ e ∈ s.queued, e ∈ s.work ∨ e = 0 ∨ e ∈ s.data.analyzed

section Analyze

variable {disasm : Disassembler} {reader : ByteReader}
  {symbolLookup : Option (U64 → Option String)} {entryPoints : List U64}
  {built : U64 → Function × List U64 × List Xref}

theorem Collected.init : Collected disasm reader symbolLookup entryPoints built
    ⟨entryPoints, entryPoints.toFinset, {}⟩ where
  assembled := assembled_init
  ran _ he := absurd he (Finset.notMem_empty _)
  taken _ he := absurd he (Finset.notMem_empty _)
  queued _ he hne := .entry (List.mem_toFinset.mp he) hne
  entry_queued _ he := List.mem_toFinset.mpr he
  callees_queued _ he := absurd he (Finset.notMem_empty _)
  work_queued _ he := List.mem_toFinset.mpr he
  covered _ he := Or.inl (List.mem_toFinset.mp he)

theorem Collected.visit (hplaced : Placed (fetch disasm reader))
    (hbuilt : BuildsTo disasm reader built) {fuel : ℕ} {s : Worklist.State U64 AnalyzeState}
    {entry : U64} {rest found : List U64} {a : AnalyzeState}
    (h : Collected disasm reader symbolLookup entryPoints built s)
    (hwork : s.work = entry :: rest)
    (hvisit : visitEntry disasm reader symbolLookup fuel entry s.data = some (a, found)) :
    Collected disasm reader symbolLookup entryPoints built
      (Worklist.State.enqueueAll { s with work := rest, data := a } found) := by
  have hassembled := h.assembled.visit hbuilt hvisit
  have hworkQueued := Worklist.State.work_queued_step a found hwork h.work_queued
  -- a visit that skips its entry only takes it off the worklist
  rcases visitEntry_cases hvisit with
    ⟨hskip, rfl, rfl⟩ | ⟨fn, callees, xrefs, hne, -, hbuild, rfl, rfl⟩
  · exact ⟨h.assembled, h.ran, h.taken, h.queued, h.entry_queued, h.callees_queued, hworkQueued,
      Worklist.State.covered_step s.data [] hwork h.covered (fun _ => id) hskip⟩
  obtain ⟨hrun, rfl, rfl, rfl⟩ := hbuilt.eq_of_build hbuild
  have htaken := h.queued entry (h.work_queued entry (Worklist.State.head_mem_work hwork)) hne
  constructor
  case assembled =>
    rw [Worklist.State.data_enqueueAll]
    exact hassembled
  case ran =>
    rw [Worklist.State.data_enqueueAll]
    exact fun e he => (Finset.mem_insert.mp he).elim (fun heq => ⟨fuel, heq ▸ hrun⟩) (h.ran e)
  case taken =>
    rw [Worklist.State.data_enqueueAll]
    exact fun e he => (Finset.mem_insert.mp he).elim (fun heq => heq ▸ htaken) (h.taken e)
  case queued =>
    intro e he hne
    rcases Worklist.State.mem_queued_enqueueAll.mp he with he | he
    · exact h.queued e he hne
    · exact .call htaken (((build_yields hplaced hrun).2 e).mp (mem_sortUnique.mp he))
  case entry_queued =>
    exact fun e he => Worklist.State.mem_queued_enqueueAll.mpr (Or.inl (h.entry_queued e he))
  -- the call targets of the new function are pushed, those of the others were
  case callees_queued =>
    rw [Worklist.State.data_enqueueAll]
    intro e he c hc
    rw [Worklist.State.mem_queued_enqueueAll]
    rcases Finset.mem_insert.mp he with rfl | he
    · exact Or.inr (mem_sortUnique.mpr hc)
    · exact Or.inl (h.callees_queued e he c hc)
  case work_queued => exact hworkQueued
  case covered =>
    rw [Worklist.State.data_enqueueAll]
    exact Worklist.State.covered_step _ _ hwork h.covered
      (fun e => Or.imp_right fun he => Finset.mem_insert_of_mem he)
      (Or.inr (Finset.mem_insert_self _ _))

/-- **What a run of `analyze` returns**: what `build` returns for each address that is taken, in
some order. -/
theorem analyze_taken (hplaced : Placed (fetch disasm reader))
    (hbuilt : BuildsTo disasm reader built) {fuel : ℕ} {result : AnalysisResult}
    (h : analyze disasm reader symbolLookup fuel entryPoints = some result) :
    (∀ e, Taken disasm reader entryPoints e →
      ∃ fuel, build disasm reader fuel e [] = some (built e)) ∧
    ∃ order : List U64, order.Nodup ∧ (∀ e, e ∈ order ↔ Taken disasm reader entryPoints e) ∧
      result = { functions := (order.map fun e => finished symbolLookup e (built e)).mergeSort
                  fun f g => f.addr ≤ g.addr
                 xrefs := order.flatMap fun e => (built e).2.2 } := by
  obtain ⟨s, hs, hdone, rfl⟩ := analyze_invariant
    (Collected disasm reader symbolLookup entryPoints built)
    (fun s entry rest a found hs hwork hvisit => hs.visit hplaced hbuilt hwork hvisit)
    Collected.init h
  -- the worklist is empty: what was queued has been analyzed, unless it is null
  have hcovered : ∀ e ∈ s.queued, e ≠ 0 → e ∈ s.data.analyzed := by
    intro e he hne
    rcases hs.covered e he with hmem | hzero | hmem
    · rw [hdone] at hmem
      exact absurd hmem List.not_mem_nil
    · exact absurd hzero hne
    · exact hmem
  have hanalyzed : ∀ e, Taken disasm reader entryPoints e → e ∈ s.data.analyzed := by
    intro e he
    -- along the chain of calls that the address is taken by
    induction he with
    | entry he hne => exact hcovered _ (hs.entry_queued _ he) hne
    | @call e c _ hc ih =>
        obtain ⟨fuel, hrun⟩ := hs.ran e ih
        have hmem := ((build_yields hplaced hrun).2 c).mpr hc
        obtain ⟨i, insn, -, -, hc⟩ := hc
        exact hcovered c (hs.callees_queued e ih c hmem) (ne_zero_of_mem_callTargets hc)
  obtain ⟨order, hnodup, hmem, hfunctions, hxrefs⟩ := hs.assembled
  refine ⟨fun e he => hs.ran e (hanalyzed e he), order, hnodup, fun e => ?_, ?_⟩
  · rw [hmem]
    exact ⟨hs.taken e, hanalyzed e⟩
  · rw [hfunctions, ← hxrefs]

theorem Taken.callable (hplaced : Placed (fetch disasm reader)) {e : U64}
    (h : Taken disasm reader entryPoints e) : Callable (fetch disasm reader) entryPoints e := by
  induction h with
  | entry he hne => exact .entry he hne
  | call _ hc ih =>
      obtain ⟨i, insn, hi, hinsn, hc⟩ := hc
      exact .call ih (hi.reached hplaced (by rw [hinsn]; rfl)) hinsn hc

/-- If no code is lost with the null address, what can be called is taken. -/
theorem taken_iff_callable (hplaced : Placed (fetch disasm reader)) {fuel : ℕ}
    {result : AnalysisResult}
    (h : analyze disasm reader symbolLookup fuel entryPoints = some result)
    (hnull : ∀ e, Callable (fetch disasm reader) entryPoints e →
      NullSafe (fetch disasm reader) e) {e : U64} :
    Taken disasm reader entryPoints e ↔ Callable (fetch disasm reader) entryPoints e := by
  obtain ⟨built, hbuilt⟩ := exists_buildsTo disasm reader
  obtain ⟨hran, -⟩ := analyze_taken hplaced hbuilt h
  refine ⟨Taken.callable hplaced, fun he => ?_⟩
  induction he with
  | entry he hne => exact .entry he hne
  | call he ha hinsn hc ih =>
      obtain ⟨fuel, hrun⟩ := hran _ ih
      exact .call ih ((yielded_callTargets_iff hplaced (hnull _ he) hrun).mpr ⟨_, _, ha, hinsn, hc⟩)

end Analyze

end Irida.Analysis
