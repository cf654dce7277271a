import Irida.Analysis.Analyzer

/-!
# What the analyzer finds, whatever the decoder

The functions that a run of `analyze` returns are callable from its entry points, and each entry
point other than null is among them.  Nothing is asked of the decoder here, so a run may not end;
the results are about those that do.

The argument follows the two loops.  An address that the worklist of `build` holds is reachable if
it decodes (`Entered`), and what is traced from it keeps to reachable instructions
(`traceLoop_sound`).  The worklist of `analyze` then holds callable addresses only (`Rooted`).
-/

namespace Irida.Analysis

open Disasm

/-- An instruction at the address, if there is one, is reachable. -/
def Entered (fetch : U64 → Option Instruction) (entry l : U64) : Prop :=
  (fetch l).isSome → Reached fetch entry l

/-- A reachable instruction calls the address directly. -/
def Called (fetch : U64 → Option Instruction) (entry c : U64) : Prop :=
  ∃ a insn, Reached fetch entry a ∧ fetch a = some insn ∧ c ∈ callTargets insn

/-- What tracing a block keeps: its edges are entered, and the call targets are called. -/
structure TracedSound (fetch : U64 → Option Instruction) (entry : U64) (bb : BasicBlock)
    (b : Builder) : Prop where
  jump : bb.jump ≠ 0 → Entered fetch entry bb.jump
  fail : bb.fail ≠ 0 → Entered fetch entry bb.fail
  callees : ∀ c ∈ b.callees, Called fetch entry c

section Build

variable {disasm : Disassembler} {reader : ByteReader} {entry start : U64}

section Trace

variable {fetch : U64 → Option Instruction} {pc l : U64} {bb : BasicBlock} {b : Builder}
  {insn : Instruction}

theorem Entered.reached (h : Entered fetch entry pc) (hfetch : fetch pc = some insn) :
    Reached fetch entry pc :=
  h (by simp [hfetch])

theorem Entered.next (h : Entered fetch entry pc) (hfetch : fetch pc = some insn)
    (hflow : FallsThrough insn ∨ insn.flow = .condJump) : Entered fetch entry insn.next :=
  (h.reached hfetch).succ (.next hfetch hflow)

theorem Entered.target (h : Entered fetch entry pc) (hfetch : fetch pc = some insn)
    (hflow : insn.flow = .jump ∨ insn.flow = .condJump) (hne : insn.branchTarget ≠ 0) :
    Entered fetch entry insn.branchTarget :=
  (h.reached hfetch).succ (.target hfetch ⟨hflow, hne⟩)

theorem TracedSound.push (h : TracedSound fetch entry bb b) (hpc : Entered fetch entry pc)
    (hfetch : fetch pc = some insn) (exit : Exit) :
    TracedSound fetch entry (bb.push insn) (b.record [insn] exit) where
  jump := h.jump
  fail := h.fail
  callees c hc := by
    rw [Builder.callees_record, List.flatMap_singleton, List.mem_append] at hc
    rcases hc with hc | hc
    · exact h.callees c hc
    · exact ⟨pc, insn, hpc.reached hfetch, hfetch, hc⟩

theorem TracedSound.jumpTo (h : TracedSound fetch entry bb b)
    (hl : l ≠ 0 → Entered fetch entry l) :
    TracedSound fetch entry { bb with jump := if l ≠ 0 then l else bb.jump } b where
  jump := by
    dsimp only
    split
    · exact hl
    · exact h.jump
  fail := h.fail
  callees := h.callees

theorem TracedSound.failTo (h : TracedSound fetch entry bb b) (hl : Entered fetch entry l) :
    TracedSound fetch entry { bb with fail := l } b :=
  ⟨h.jump, fun _ => hl, h.callees⟩

end Trace

/-- The loop of `trace_block`, entered at an address that is reachable if it decodes. -/
theorem traceLoop_sound {fuel : ℕ} {pc : U64} {bb bb' : BasicBlock} {b b' : Builder}
    (h : traceLoop disasm reader start fuel pc bb b = some (bb', b')) :
    Entered (fetch disasm reader) entry pc → TracedSound (fetch disasm reader) entry bb b →
    TracedSound (fetch disasm reader) entry bb' b' ∧ bb'.addr = bb.addr ∧ b'.blocks = b.blocks := by
  refine traceLoop_induct (P := fun pc bb b r => Entered (fetch disasm reader) entry pc →
    TracedSound (fetch disasm reader) entry bb b →
    TracedSound (fetch disasm reader) entry r.1 r.2 ∧ r.1.addr = bb.addr ∧ r.2.blocks = b.blocks)
    ?known ?dead ?jump ?condJump ?ret ?more h
  case known =>
    intro pc bb b _ _ hpc hsound
    exact ⟨hsound.failTo hpc, rfl, rfl⟩
  case dead =>
    intro pc bb b _ _ hsound
    exact ⟨hsound, rfl, rfl⟩
  case jump =>
    intro pc bb b insn _ hfetch hflow hpc hsound
    have hpush := hsound.push hpc hfetch (.jump insn.branchTarget)
    exact ⟨hpush.jumpTo (hpc.target hfetch (Or.inl hflow)), rfl, rfl⟩
  case condJump =>
    intro pc bb b insn _ hfetch hflow hpc hsound
    have hpush := hsound.push hpc hfetch (.condJump insn.branchTarget insn.next)
    have hjump := hpush.jumpTo (hpc.target hfetch (Or.inr hflow))
    exact ⟨hjump.failTo (hpc.next hfetch (Or.inr hflow)), rfl, rfl⟩
  case ret =>
    intro pc bb b insn _ hfetch _ hpc hsound
    exact ⟨hsound.push hpc hfetch .ret, rfl, rfl⟩
  case more =>
    intro pc bb b insn r _ hfetch hfalls ih hpc hsound
    exact ih (hpc.next hfetch (Or.inl hfalls)) (hsound.push hpc hfetch .dead)

/-- The invariant of the worklist loop of `build`. -/
structure BuildSound (fetch : U64 → Option Instruction) (entry : U64)
    (s : Worklist.State U64 Builder) : Prop where
  work : ∀ l ∈ s.work, Entered fetch entry l
  callees : ∀ c ∈ s.data.callees, Called fetch entry c
  entry_mem : entry ∈ s.work ∨ entry ∈ s.data.blocks

theorem BuildSound.init (fetch : U64 → Option Instruction) (entry : U64) (old : List Xref) :
    BuildSound fetch entry
      ⟨[entry], {entry}, { leaders := (∅ : Std.ExtTreeSet U64).insert entry, xrefs := old }⟩ where
  work l hl := by
    rw [List.mem_singleton.mp hl]
    exact .entry
  callees c hc := absurd hc List.not_mem_nil
  entry_mem := Or.inl (List.mem_singleton_self entry)

/-- What one visit does to the data, and what it reports. -/
theorem visitBlock_sound {fuel : ℕ} {b b' : Builder} {found : List U64}
    (hcallees : ∀ c ∈ b.callees, Called (fetch disasm reader) entry c)
    (hstart : Entered (fetch disasm reader) entry start)
    (h : visitBlock disasm reader fuel start b = some (b', found)) :
    (∀ c ∈ b'.callees, Called (fetch disasm reader) entry c) ∧
      (∀ l ∈ found, Entered (fetch disasm reader) entry l) ∧
      (∀ l ∈ b.blocks, l ∈ b'.blocks) ∧ start ∈ b'.blocks := by
  rcases visitBlock_cases h with ⟨hmem, rfl, rfl⟩ | ⟨bb, traced, htrace, rfl, rfl⟩
  · exact ⟨hcallees, fun _ hl => absurd hl List.not_mem_nil, fun _ => id, hmem⟩
  obtain ⟨hsound, haddr, hblocks⟩ := traceLoop_sound htrace hstart
    ⟨fun hne => absurd rfl hne, fun hne => absurd rfl hne, hcallees⟩
  refine ⟨hsound.callees, fun l hl => ?_, fun l hl => ?_, ?_⟩
  · obtain ⟨hl, hne⟩ := List.mem_filter.mp hl
    have hne : l ≠ 0 := by simpa using hne
    rcases List.mem_pair.mp hl with rfl | rfl
    · exact hsound.jump hne
    · exact hsound.fail hne
  · exact Std.ExtTreeMap.mem_insertIfNew.mpr (Or.inr (hblocks ▸ hl))
  · rw [haddr]
    exact Std.ExtTreeMap.mem_insertIfNew.mpr (Or.inl Std.ReflCmp.compare_self)

theorem BuildSound.visit {fuel : ℕ} {s : Worklist.State U64 Builder} {rest found : List U64}
    {b : Builder} (h : BuildSound (fetch disasm reader) entry s) (hwork : s.work = start :: rest)
    (hvisit : visitBlock disasm reader fuel start s.data = some (b, found)) :
    BuildSound (fetch disasm reader) entry
      (Worklist.State.enqueueAll { s with work := rest, data := b } found) := by
  obtain ⟨hcallees, hfound, hkeep, hstart⟩ :=
    visitBlock_sound h.callees (h.work start (Worklist.State.head_mem_work hwork)) hvisit
  constructor
  case work =>
    intro l hl
    rcases Worklist.State.mem_work_enqueueAll.mp hl with hl | ⟨hl, -⟩
    · exact h.work l (Worklist.State.tail_mem_work hwork hl)
    · exact hfound l hl
  case callees =>
    rw [Worklist.State.data_enqueueAll]
    exact hcallees
  case entry_mem =>
    rw [Worklist.State.data_enqueueAll, Worklist.State.mem_work_enqueueAll]
    rcases h.entry_mem with hmem | hmem
    · rcases List.mem_cons.mp (hwork ▸ hmem) with rfl | hmem
      · exact Or.inr hstart
      · exact Or.inl (Or.inl hmem)
    · exact Or.inr (hkeep entry hmem)

theorem BuildSound.mem_blocks {s : Worklist.State U64 Builder}
    (h : BuildSound (fetch disasm reader) entry s) (hdone : s.work = []) :
    entry ∈ s.data.blocks := by
  refine h.entry_mem.resolve_left ?_
  rw [hdone]
  exact List.not_mem_nil

theorem mem_splitLoop {leaders : Std.ExtTreeSet U64} {fuel : ℕ}
    {blocks blocks' : Std.ExtTreeMap U64 BasicBlock}
    (hsplit : splitLoop leaders fuel blocks = some blocks') {l : U64} (hl : l ∈ blocks) :
    l ∈ blocks' := by
  refine splitLoop_invariant (fun blocks => l ∈ blocks)
    (fun blocks key bb leader hmem hbb _ _ _ _ => ?_) hl hsplit
  exact (mem_splitBlock (Std.ExtTreeMap.mem_iff_isSome_getElem?.mpr (by simp [hbb]))).mpr
    (Or.inl hmem)

/-- **What `build` returns, if it does**: a function at the entry with at least one block, and
call targets of reachable instructions. -/
theorem build_sound {fuel : ℕ} {old xrefs : List Xref} {fn : Function} {callees : List U64}
    (h : build disasm reader fuel entry old = some (fn, callees, xrefs)) :
    fn.addr = entry ∧ fn.blocks ≠ [] ∧ ∀ c ∈ callees, Called (fetch disasm reader) entry c := by
  obtain ⟨b, hrun, hfinal, rfl, -⟩ := build_eq_some.mp h
  obtain ⟨s, rfl, hsound, hdone⟩ := Worklist.run_invariant
    (BuildSound (fetch disasm reader) entry)
    (fun s start rest data found hs hwork hvisit => hs.visit hwork hvisit)
    (BuildSound.init _ entry old) hrun
  obtain ⟨blocks, hsplit, rfl⟩ := finalize_eq_some.mp hfinal
  have hentry := Std.ExtTreeMap.getElem?_eq_some_getElem
    (mem_splitLoop hsplit (hsound.mem_blocks hdone))
  exact ⟨rfl, List.ne_nil_of_mem (List.mem_mergeSort.mpr (mem_map_snd_toList.mpr ⟨entry, hentry⟩)),
    hsound.callees⟩

end Build

/-! ## `analyze` -/

/-- The invariant of the worklist loop of `analyze`. -/
structure Rooted (fetch : U64 → Option Instruction) (entryPoints : List U64)
    (s : Worklist.State U64 AnalyzeState) : Prop where
  work : ∀ e ∈ s.work, e ≠ 0 → Callable fetch entryPoints e
  functions : ∀ fn ∈ s.data.result.functions, Callable fetch entryPoints fn.addr
  analyzed : ∀ e ∈ s.data.analyzed, ∃ fn ∈ s.data.result.functions, fn.addr = e
  entry_mem : ∀ e ∈ entryPoints, e ∈ s.work ∨ e = 0 ∨ e ∈ s.data.analyzed

section Analyze

variable {disasm : Disassembler} {reader : ByteReader}
  {symbolLookup : Option (U64 → Option String)} {entryPoints : List U64}

theorem Rooted.init (fetch : U64 → Option Instruction) (entryPoints : List U64) :
    Rooted fetch entryPoints ⟨entryPoints, entryPoints.toFinset, {}⟩ where
  work _ he hne := .entry he hne
  functions _ hfn := absurd hfn List.not_mem_nil
  analyzed _ he := absurd he (Finset.notMem_empty _)
  entry_mem _ he := Or.inl he

/-- A visit does nothing, or it adds the function that was built. -/
theorem visitEntry_cases {fuel : ℕ} {entry : U64} {a a' : AnalyzeState} {found : List U64}
    (h : visitEntry disasm reader symbolLookup fuel entry a = some (a', found)) :
    ((entry = 0 ∨ entry ∈ a.analyzed) ∧ a' = a ∧ found = []) ∨
      ∃ fn callees xrefs, entry ≠ 0 ∧ entry ∉ a.analyzed ∧
        build disasm reader fuel entry a.result.xrefs = some (fn, callees, xrefs) ∧
        a' = ⟨insert entry a.analyzed, ⟨a.result.functions ++ [{ fn with
          callees := sortUnique callees
          name := functionName symbolLookup entry fn.name }], xrefs⟩⟩ ∧
        found = sortUnique callees := by
  unfold visitEntry at h
  by_cases hskip : entry = 0 ∨ entry ∈ a.analyzed
  · rw [if_pos hskip] at h
    cases h
    exact Or.inl ⟨hskip, rfl, rfl⟩
  rw [if_neg hskip] at h
  cases hbuild : build disasm reader fuel entry a.result.xrefs with
  | none => simp [hbuild] at h
  | some built =>
      obtain ⟨fn, callees, xrefs⟩ := built
      -- the function has a block
      simp only [hbuild, if_neg (build_sound hbuild).2.1] at h
      cases h
      obtain ⟨hzero, hnew⟩ := not_or.mp hskip
      exact Or.inr ⟨fn, callees, xrefs, hzero, hnew, rfl, rfl, rfl⟩

/-- What one visit does to the functions, and what it reports. -/
theorem visitEntry_sound {fuel : ℕ} {entry : U64} {a a' : AnalyzeState} {found : List U64}
    (hentry : entry ≠ 0 → Callable (fetch disasm reader) entryPoints entry)
    (hfunctions : ∀ fn ∈ a.result.functions, Callable (fetch disasm reader) entryPoints fn.addr)
    (hanalyzed : ∀ e ∈ a.analyzed, ∃ fn ∈ a.result.functions, fn.addr = e)
    (h : visitEntry disasm reader symbolLookup fuel entry a = some (a', found)) :
    (∀ c ∈ found, Callable (fetch disasm reader) entryPoints c) ∧
      (∀ fn ∈ a'.result.functions, Callable (fetch disasm reader) entryPoints fn.addr) ∧
      (∀ e ∈ a'.analyzed, ∃ fn ∈ a'.result.functions, fn.addr = e) ∧
      (∀ e ∈ a.analyzed, e ∈ a'.analyzed) ∧ (entry = 0 ∨ entry ∈ a'.analyzed) := by
  rcases visitEntry_cases h with
    ⟨hskip, rfl, rfl⟩ | ⟨fn, callees, xrefs, hzero, -, hbuild, rfl, rfl⟩
  · exact ⟨fun _ hc => absurd hc List.not_mem_nil, hfunctions, hanalyzed, fun _ => id, hskip⟩
  -- a function was built at the entry
  obtain ⟨haddr, -, hcallees⟩ := build_sound hbuild
  refine ⟨fun c hc => ?_, fun g hg => ?_, fun e he => ?_, fun e he => ?_, ?_⟩
  · obtain ⟨i, insn, hi, hinsn, hc⟩ := hcallees c (mem_sortUnique.mp hc)
    exact .call (hentry hzero) hi hinsn hc
  · rcases List.mem_append.mp hg with hg | hg
    · exact hfunctions g hg
    · rw [List.mem_singleton.mp hg]
      exact haddr.symm ▸ hentry hzero
  · rcases Finset.mem_insert.mp he with rfl | he
    · exact ⟨_, List.mem_append_right _ (List.mem_singleton_self _), haddr⟩
    · obtain ⟨g, hg, hge⟩ := hanalyzed e he
      exact ⟨g, List.mem_append_left _ hg, hge⟩
  · exact Finset.mem_insert_of_mem he
  · exact Or.inr (Finset.mem_insert_self _ _)

theorem Rooted.visit {fuel : ℕ} {s : Worklist.State U64 AnalyzeState} {entry : U64}
    {rest found : List U64} {a : AnalyzeState}
    (h : Rooted (fetch disasm reader) entryPoints s) (hwork : s.work = entry :: rest)
    (hvisit : visitEntry disasm reader symbolLookup fuel entry s.data = some (a, found)) :
    Rooted (fetch disasm reader) entryPoints
      (Worklist.State.enqueueAll { s with work := rest, data := a } found) := by
  obtain ⟨hfound, hfunctions, hanalyzed, hkeep, hdone⟩ :=
    visitEntry_sound (h.work entry (Worklist.State.head_mem_work hwork)) h.functions h.analyzed
      hvisit
  constructor
  case work =>
    intro e he hne
    rcases Worklist.State.mem_work_enqueueAll.mp he with he | ⟨he, -⟩
    · exact h.work e (Worklist.State.tail_mem_work hwork he) hne
    · exact hfound e he
  case functions =>
    rw [Worklist.State.data_enqueueAll]
    exact hfunctions
  case analyzed =>
    rw [Worklist.State.data_enqueueAll]
    exact hanalyzed
  -- an entry point is still on the worklist, or was popped just now, or is null, or was analyzed
  case entry_mem =>
    intro e he
    rw [Worklist.State.data_enqueueAll, Worklist.State.mem_work_enqueueAll]
    rcases h.entry_mem e he with hmem | hzero | hmem
    · rcases List.mem_cons.mp (hwork ▸ hmem) with rfl | hmem
      · exact Or.inr hdone
      · exact Or.inl (Or.inl hmem)
    · exact Or.inr (Or.inl hzero)
    · exact Or.inr (Or.inr (hkeep e hmem))

/-- **The functions of a run of `analyze`**: each is callable from the entry points, and each entry
point other than null is one of them. -/
theorem analyze_rooted {fuel : ℕ} {result : AnalysisResult}
    (h : analyze disasm reader symbolLookup fuel entryPoints = some result) :
    (∀ fn ∈ result.functions, Callable (fetch disasm reader) entryPoints fn.addr) ∧
      ∀ e ∈ entryPoints, e ≠ 0 → ∃ fn ∈ result.functions, fn.addr = e := by
  obtain ⟨s, hrooted, hdone, rfl⟩ := analyze_invariant
    (Rooted (fetch disasm reader) entryPoints)
    (fun s entry rest a found hs hwork hvisit => hs.visit hwork hvisit)
    (Rooted.init _ entryPoints) h
  simp only [List.mem_mergeSort]
  refine ⟨hrooted.functions, fun e he hne => ?_⟩
  rcases hrooted.entry_mem e he with hmem | hzero | hmem
  · rw [hdone] at hmem
    exact absurd hmem List.not_mem_nil
  · exact absurd hzero hne
  · exact hrooted.analyzed e hmem

end Analyze

end Irida.Analysis
