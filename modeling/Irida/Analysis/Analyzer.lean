import Irida.Analysis.Canonical
import Mathlib.Data.List.Destutter
import Mathlib.Data.List.Sort

/-!
# The analyzer

`Analyzer::analyze`: a second worklist, of function entries.  Each entry is built
as a function, and the call targets found on the way become entries themselves.

`Callable` is the set of addresses that the analyzer is there to find, the entry
points and everything called from them.  `Progress` is the invariant that closes
the outer loop over it: whatever was queued is still in the queue, or null, or
the address of one function.
-/

namespace Irida.Analysis

open Disasm

/-- `AnalysisResult`. -/
structure AnalysisResult where
  functions : List Function := []
  xrefs : List Xref := []
  deriving DecidableEq, Repr

/-- The result of `analyze` so far, and the entries it was built from. -/
structure AnalyzeState where
  analyzed : Finset U64 := ∅
  result : AnalysisResult := {}

/-- `std::sort` and `std::unique` on a vector of addresses. -/
def sortUnique (addrs : List U64) : List U64 :=
  (addrs.mergeSort fun a b => a ≤ b).destutter (· ≠ ·)

section Analyze

variable (disasm : Disassembler) (reader : ByteReader)
  (symbolLookup : Option (U64 → Option String))

/-- The name of the function at an address: that of a symbol, if there is one. -/
def functionName (entry : U64) (name : String) : String :=
  match symbolLookup with
  | none => name
  | some lookup => (lookup entry).getD name

/-- One iteration of the worklist loop of `analyze`. -/
def visitEntry (fuel : ℕ) (entry : U64) (a : AnalyzeState) : Option (AnalyzeState × List U64) :=
  if entry = 0 ∨ entry ∈ a.analyzed then some (a, [])
  else
    match build disasm reader fuel entry a.result.xrefs with
    | none => none
    | some (fn, callees, xrefs) =>
      let analyzed := insert entry a.analyzed
      if fn.blocks = [] then some (⟨analyzed, { a.result with xrefs := xrefs }⟩, [])
      else
        let callees := sortUnique callees
        let fn := { fn with
          callees := callees
          name := functionName symbolLookup entry fn.name }
        some (⟨analyzed, ⟨a.result.functions ++ [fn], xrefs⟩⟩, callees)

/-- `Analyzer::analyze`. -/
def analyze (fuel : ℕ) (entryPoints : List U64) : Option AnalysisResult :=
  match Worklist.run (visitEntry disasm reader symbolLookup fuel) fuel
      ⟨entryPoints, entryPoints.toFinset, {}⟩ with
  | none => none
  | some a =>
    some { a.result with functions := a.result.functions.mergeSort fun f g => f.addr ≤ g.addr }

end Analyze

section Windows

variable {disasm : Disassembler} {reader reader' : ByteReader}

theorem traceLoop_congr (h : ∀ a, reader.read a kReadWindow = reader'.read a kReadWindow)
    (start : U64) (fuel : ℕ) (pc : U64) (bb : BasicBlock) (b : Builder) :
    traceLoop disasm reader start fuel pc bb b = traceLoop disasm reader' start fuel pc bb b := by
  induction fuel generalizing pc bb b with
  | zero => rfl
  | succ fuel ih => simp only [traceLoop, h, ih]

/-- **The analysis reads windows only.** -/
theorem analyze_congr (h : ∀ a, reader.read a kReadWindow = reader'.read a kReadWindow)
    (symbolLookup : Option (U64 → Option String)) (fuel : ℕ) (entryPoints : List U64) :
    analyze disasm reader symbolLookup fuel entryPoints =
      analyze disasm reader' symbolLookup fuel entryPoints := by
  have hvisit : visitBlock disasm reader fuel = visitBlock disasm reader' fuel := by
    funext start b
    simp only [visitBlock, traceBlock, traceLoop_congr h]
  have hbuild : ∀ entry xrefs,
      build disasm reader fuel entry xrefs = build disasm reader' fuel entry xrefs := by
    intro entry xrefs
    rw [build, build, hvisit]
  have hentry : visitEntry disasm reader symbolLookup fuel =
      visitEntry disasm reader' symbolLookup fuel := by
    funext entry a
    simp only [visitEntry, hbuild]
  rw [analyze, analyze, hentry]

end Windows

section Run

variable {disasm : Disassembler} {reader : ByteReader}
  {symbolLookup : Option (U64 → Option String)} {entryPoints : List U64} {fuel : ℕ}
  {result : AnalysisResult}

/-- What `analyze` returns, if it does: what the worklist loop ends with, sorted. -/
theorem analyze_eq_some : analyze disasm reader symbolLookup fuel entryPoints = some result ↔ ∃ a,
    Worklist.run (visitEntry disasm reader symbolLookup fuel) fuel
      ⟨entryPoints, entryPoints.toFinset, {}⟩ = some a ∧
    result = { a.result with
      functions := a.result.functions.mergeSort fun f g => f.addr ≤ g.addr } := by
  unfold analyze
  cases Worklist.run (visitEntry disasm reader symbolLookup fuel) fuel
      ⟨entryPoints, entryPoints.toFinset, {}⟩ with
  | none => simp
  | some a => simp [eq_comm]

/-- **The invariant rule of `analyze`**: what each visit keeps holds of the state whose functions
and references are returned. -/
theorem analyze_invariant (Inv : Worklist.State U64 AnalyzeState → Prop)
    (hstep : ∀ s entry rest a found, Inv s → s.work = entry :: rest →
      visitEntry disasm reader symbolLookup fuel entry s.data = some (a, found) →
      Inv (Worklist.State.enqueueAll { s with work := rest, data := a } found))
    (hinv : Inv ⟨entryPoints, entryPoints.toFinset, {}⟩)
    (h : analyze disasm reader symbolLookup fuel entryPoints = some result) :
    ∃ s, Inv s ∧ s.work = [] ∧ result = { s.data.result with
      functions := s.data.result.functions.mergeSort fun f g => f.addr ≤ g.addr } := by
  obtain ⟨a, hrun, rfl⟩ := analyze_eq_some.mp h
  obtain ⟨s, rfl, hs, hdone⟩ := Worklist.run_invariant Inv hstep hinv hrun
  exact ⟨s, hs, hdone, rfl⟩

end Run

/-! ## Sorting addresses -/

private theorem le_trans_addr (a b c : U64) (hab : decide (a ≤ b)) (hbc : decide (b ≤ c)) :
    decide (a ≤ c) := by
  simp only [decide_eq_true_eq] at *
  exact BitVec.le_trans hab hbc

private theorem le_total_addr (a b : U64) : (decide (a ≤ b) || decide (b ≤ a)) = true := by
  simpa using BitVec.le_total a b

private theorem pairwise_le_mergeSort (addrs : List U64) :
    (addrs.mergeSort fun a b => a ≤ b).Pairwise (· ≤ ·) :=
  (List.pairwise_mergeSort le_trans_addr le_total_addr addrs).imp fun h => by simpa using h

private theorem sortUnique_eq (addrs : List U64) :
    sortUnique addrs = (addrs.mergeSort fun a b => a ≤ b).dedup := by
  have : Std.Antisymm fun a b : U64 => a ≤ b := ⟨fun _ _ => BitVec.le_antisymm⟩
  exact (pairwise_le_mergeSort addrs).destutter_eq_dedup

@[simp] theorem mem_sortUnique {addrs : List U64} {a : U64} : a ∈ sortUnique addrs ↔ a ∈ addrs := by
  rw [sortUnique_eq, List.mem_dedup, List.mem_mergeSort]

theorem pairwise_sortUnique (addrs : List U64) : (sortUnique addrs).Pairwise (· < ·) := by
  rw [sortUnique_eq]
  have hle := (pairwise_le_mergeSort addrs).sublist (List.dedup_sublist _)
  have hne : ((addrs.mergeSort fun a b => a ≤ b).dedup).Pairwise (· ≠ ·) := List.nodup_dedup _
  exact (hle.and hne).imp fun h => BitVec.lt_of_le_ne h.1 h.2

theorem pairwise_lt_mergeSort {functions : List Function}
    (h : functions.Pairwise fun f g => f.addr ≠ g.addr) :
    (functions.mergeSort fun f g => f.addr ≤ g.addr).Pairwise fun f g => f.addr < g.addr := by
  have hle : (functions.mergeSort fun f g => f.addr ≤ g.addr).Pairwise
      fun f g => decide (f.addr ≤ g.addr) = true :=
    List.pairwise_mergeSort (fun f g k => le_trans_addr f.addr g.addr k.addr)
      (fun f g => le_total_addr f.addr g.addr) functions
  have hne : (functions.mergeSort fun f g => f.addr ≤ g.addr).Pairwise
      fun f g => f.addr ≠ g.addr :=
    ((List.mergeSort_perm _ _).pairwise_iff fun {_ _} h => h.symm).mpr h
  exact (hle.and hne).imp fun h => BitVec.lt_of_le_ne (by simpa using h.1) h.2

/-! ## The direct-call closure -/

/-- The least set that contains the entry points other than null and the direct
call targets of the instructions reachable from its members. -/
inductive Callable (fetch : U64 → Option Instruction) (entryPoints : List U64) : U64 → Prop
  | entry {e : U64} : e ∈ entryPoints → e ≠ 0 → Callable fetch entryPoints e
  | call {e a c : U64} {insn : Instruction} : Callable fetch entryPoints e →
      Reached fetch e a → fetch a = some insn → c ∈ callTargets insn →
      Callable fetch entryPoints c

theorem ne_zero_of_mem_callTargets {insn : Instruction} {c : U64} (h : c ∈ callTargets insn) :
    c ≠ 0 := by
  unfold callTargets at h
  split at h
  · obtain ⟨rfl, hne⟩ := mem_direct.mp h
    exact hne
  · simp at h

/-- What `analyze` promises about each function. -/
structure Analyzed (fetch : U64 → Option Instruction) (fn : Function) : Prop where
  canonical : CanonicalFunction fetch fn.addr fn
  callees_sorted : fn.callees.Pairwise (· < ·)
  mem_callees_iff : ∀ c, c ∈ fn.callees ↔ ∃ a insn, Reached fetch fn.addr a ∧
    fetch a = some insn ∧ c ∈ callTargets insn

/-- The invariant of the worklist loop of `analyze`. -/
structure Progress (fetch : U64 → Option Instruction) (entryPoints : List U64)
    (s : Worklist.State U64 AnalyzeState) : Prop where
  entry_queued : ∀ e ∈ entryPoints, e ∈ s.queued
  work_queued : ∀ e ∈ s.work, e ∈ s.queued
  covered : ∀ e ∈ s.queued, e ∈ s.work ∨ e = 0 ∨ e ∈ s.data.analyzed
  sound : ∀ e ∈ s.queued, e ≠ 0 → Callable fetch entryPoints e
  mem_analyzed_iff : ∀ e, e ∈ s.data.analyzed ↔ ∃ fn ∈ s.data.result.functions, fn.addr = e
  analyzed_callable : ∀ e ∈ s.data.analyzed, Callable fetch entryPoints e
  distinct : s.data.result.functions.Pairwise fun f g => f.addr ≠ g.addr
  analyzed : ∀ fn ∈ s.data.result.functions, Analyzed fetch fn
  closed : ∀ fn ∈ s.data.result.functions, ∀ c ∈ fn.callees, c ∈ s.queued

theorem CanonicalFunction.blocks_ne_nil {fetch : U64 → Option Instruction} {entry : U64}
    {fn : Function} (h : CanonicalFunction fetch entry fn) : fn.blocks ≠ [] := by
  obtain ⟨bb, hbb, -⟩ := (h.mem_addr_iff entry).mpr .entry
  exact List.ne_nil_of_mem hbb

namespace Progress

variable {fetch : U64 → Option Instruction} {entryPoints : List U64}
  {s : Worklist.State U64 AnalyzeState}

theorem init (fetch : U64 → Option Instruction) (entryPoints : List U64) :
    Progress fetch entryPoints ⟨entryPoints, entryPoints.toFinset, {}⟩ where
  entry_queued e he := List.mem_toFinset.mpr he
  work_queued e he := List.mem_toFinset.mpr he
  covered e he := Or.inl (List.mem_toFinset.mp he)
  sound e he hne := .entry (List.mem_toFinset.mp he) hne
  mem_analyzed_iff e := by simp
  analyzed_callable e he := by simp at he
  distinct := List.Pairwise.nil
  analyzed fn hfn := by simp at hfn
  closed fn hfn := by simp at hfn

theorem skip {entry : U64} {rest : List U64} (h : Progress fetch entryPoints s)
    (hwork : s.work = entry :: rest) (hentry : entry = 0 ∨ entry ∈ s.data.analyzed) :
    Progress fetch entryPoints { s with work := rest } :=
  { h with
    work_queued := Worklist.State.work_queued_step s.data [] hwork h.work_queued
    covered := Worklist.State.covered_step s.data [] hwork h.covered (fun _ => id) hentry }

/-- Popping an entry and adding its function. -/
theorem push {entry : U64} {rest : List U64} (fn : Function) (xrefs : List Xref)
    (h : Progress fetch entryPoints s) (hwork : s.work = entry :: rest) (hentry : entry ≠ 0)
    (hnew : entry ∉ s.data.analyzed) (haddr : fn.addr = entry) (hfn : Analyzed fetch fn) :
    Progress fetch entryPoints
      (Worklist.State.enqueueAll
        { s with
          work := rest
          data := ⟨insert entry s.data.analyzed, ⟨s.data.result.functions ++ [fn], xrefs⟩⟩ }
        fn.callees) := by
  have hqueued : entry ∈ s.queued := h.work_queued entry (Worklist.State.head_mem_work hwork)
  have hcallable : Callable fetch entryPoints entry := h.sound entry hqueued hentry
  have hcallee : ∀ c ∈ fn.callees, Callable fetch entryPoints c := by
    intro c hc
    obtain ⟨a, insn, ha, hinsn, hc⟩ := (hfn.mem_callees_iff c).mp hc
    exact .call (haddr ▸ hcallable) ha hinsn hc
  constructor
  case entry_queued =>
    intro e he
    exact Worklist.State.mem_queued_enqueueAll.mpr (Or.inl (h.entry_queued e he))
  case work_queued => exact Worklist.State.work_queued_step _ _ hwork h.work_queued
  case covered =>
    rw [Worklist.State.data_enqueueAll]
    refine Worklist.State.covered_step _ _ hwork h.covered (fun e he => ?_) ?_
    · exact he.imp_right Finset.mem_insert_of_mem
    · exact Or.inr (Finset.mem_insert_self _ _)
  case sound =>
    intro e he hne
    rcases Worklist.State.mem_queued_enqueueAll.mp he with he | he
    · exact h.sound e he hne
    · exact hcallee e he
  -- the entry and the function are added together
  case mem_analyzed_iff =>
    intro e
    simp only [Worklist.State.data_enqueueAll, Finset.mem_insert, h.mem_analyzed_iff e,
      List.mem_append, List.mem_singleton]
    constructor
    · rintro (rfl | ⟨g, hg, hge⟩)
      · exact ⟨fn, Or.inr rfl, haddr⟩
      · exact ⟨g, Or.inl hg, hge⟩
    · rintro ⟨g, hg | rfl, hge⟩
      · exact Or.inr ⟨g, hg, hge⟩
      · exact Or.inl (hge.symm.trans haddr)
  case analyzed_callable =>
    intro e he
    rw [Worklist.State.data_enqueueAll, Finset.mem_insert] at he
    rcases he with rfl | he
    · exact hcallable
    · exact h.analyzed_callable e he
  case distinct =>
    -- a second function at the entry would have been analyzed before
    rw [Worklist.State.data_enqueueAll, List.pairwise_append]
    refine ⟨h.distinct, List.pairwise_singleton _ _, fun g hg f hf hgf => hnew ?_⟩
    obtain rfl := List.mem_singleton.mp hf
    exact (h.mem_analyzed_iff entry).mpr ⟨g, hg, hgf.trans haddr⟩
  case analyzed =>
    intro g hg
    rw [Worklist.State.data_enqueueAll] at hg
    rcases List.mem_append.mp hg with hg | hg
    · exact h.analyzed g hg
    · obtain rfl := List.mem_singleton.mp hg
      exact hfn
  -- the call targets of the new function are pushed now, those of the others were pushed before
  case closed =>
    intro g hg c hc
    rw [Worklist.State.data_enqueueAll] at hg
    rw [Worklist.State.mem_queued_enqueueAll]
    rcases List.mem_append.mp hg with hg | hg
    · exact Or.inl (h.closed g hg c hc)
    · obtain rfl := List.mem_singleton.mp hg
      exact Or.inr hc

/-! ## When the queue is empty -/

/-- Every callable address was analyzed, and nothing else. -/
theorem mem_analyzed_iff_callable (h : Progress fetch entryPoints s) (hdone : s.work = [])
    {e : U64} : e ∈ s.data.analyzed ↔ Callable fetch entryPoints e := by
  have hcovered : ∀ e ∈ s.queued, e ≠ 0 → e ∈ s.data.analyzed := by
    intro e he hne
    have hcov := h.covered e he
    rw [hdone] at hcov
    rcases hcov with hwork | hzero | hmem
    · exact absurd hwork List.not_mem_nil
    · exact absurd hzero hne
    · exact hmem
  refine ⟨h.analyzed_callable e, fun he => ?_⟩
  induction he with
  | entry he hne => exact hcovered _ (h.entry_queued _ he) hne
  | @call e a c insn _ ha hinsn hc ih =>
      obtain ⟨fn, hfn, rfl⟩ := (h.mem_analyzed_iff e).mp ih
      have hcallee := ((h.analyzed fn hfn).mem_callees_iff c).mpr ⟨a, insn, ha, hinsn, hc⟩
      exact hcovered c (h.closed fn hfn c hcallee) (ne_zero_of_mem_callTargets hc)

end Progress

/-! ## `analyze` -/

section Monotone

variable {disasm : Disassembler} {reader : ByteReader}
  {symbolLookup : Option (U64 → Option String)}

theorem visitEntry_mono {fuel larger : ℕ} (hle : fuel ≤ larger) (entry : U64) (a : AnalyzeState)
    (r : AnalyzeState × List U64)
    (h : visitEntry disasm reader symbolLookup fuel entry a = some r) :
    visitEntry disasm reader symbolLookup larger entry a = some r := by
  unfold visitEntry at h ⊢
  split at h
  · next hentry => rw [if_pos hentry, h]
  · next hentry =>
      rw [if_neg hentry]
      cases hbuild : build disasm reader fuel entry a.result.xrefs with
      | none => simp [hbuild] at h
      | some built =>
          rw [build_mono hle hbuild]
          rw [hbuild] at h
          exact h

theorem Progress.step (hplaced : WellPlaced (fetch disasm reader)) {entryPoints : List U64}
    {s : Worklist.State U64 AnalyzeState} {entry : U64} {rest : List U64}
    (h : Progress (fetch disasm reader) entryPoints s) (hwork : s.work = entry :: rest) :
    ∃ fuel a found, visitEntry disasm reader symbolLookup fuel entry s.data = some (a, found) ∧
      Progress (fetch disasm reader) entryPoints
        (Worklist.State.enqueueAll { s with work := rest, data := a } found) := by
  by_cases hentry : entry = 0 ∨ entry ∈ s.data.analyzed
  · exact ⟨0, s.data, [], by rw [visitEntry, if_pos hentry], h.skip hwork hentry⟩
  · obtain ⟨hzero, hnew⟩ := not_or.mp hentry
    obtain ⟨fuel, fn, d, hbuild, hcanon, hdisc, hdone⟩ :=
      build_spec hplaced entry s.data.result.xrefs
    refine ⟨fuel, _, _, ?_, h.push { fn with
      callees := sortUnique d.data.callees
      name := functionName symbolLookup entry fn.name } d.data.xrefs hwork hzero hnew
        hcanon.addr ?_⟩
    · rw [visitEntry, if_neg hentry, hbuild fuel (le_refl _)]
      simp only [hcanon.blocks_ne_nil, if_false]
    · have haddr := hcanon.addr
      refine ⟨⟨rfl, hcanon.sorted, ?_, ?_⟩, pairwise_sortUnique _, fun c => ?_⟩
      · exact haddr ▸ hcanon.mem_addr_iff
      · exact haddr ▸ hcanon.blocks
      · rw [mem_sortUnique, hdisc.mem_callees_iff hplaced.toPlaced (hplaced.nullSafe _) hdone,
          haddr]

theorem run_visitEntry_spec (symbolLookup : Option (U64 → Option String))
    (hplaced : WellPlaced (fetch disasm reader)) (entryPoints : List U64) :
    ∃ bound s, (∀ fuel ≥ bound, Worklist.run (visitEntry disasm reader symbolLookup fuel) fuel
        ⟨entryPoints, entryPoints.toFinset, {}⟩ = some s.data) ∧
      Progress (fetch disasm reader) entryPoints s ∧ s.work = [] :=
  Worklist.run_eventually (fun hle => visitEntry_mono hle) _
    (fun _ _ _ h hwork => h.step hplaced hwork) (Progress.init _ entryPoints)

theorem exists_analyze (hplaced : WellPlaced (fetch disasm reader))
    (symbolLookup : Option (U64 → Option String)) (entryPoints : List U64) :
    ∃ fuel result, analyze disasm reader symbolLookup fuel entryPoints = some result := by
  obtain ⟨bound, s, hrun, -⟩ := run_visitEntry_spec symbolLookup hplaced entryPoints
  exact ⟨bound, _, by rw [analyze, hrun bound (le_refl _)]⟩

end Monotone

/-- A list of functions at different addresses has one at each of them. -/
private theorem countP_addr_eq_one {functions : List Function}
    (h : functions.Pairwise fun f g => f.addr < g.addr) {a : U64}
    (ha : ∃ fn ∈ functions, fn.addr = a) : functions.countP (fun fn => fn.addr = a) = 1 := by
  induction functions with
  | nil => simp at ha
  | cons fn functions ih =>
      obtain ⟨hhead, htail⟩ := List.pairwise_cons.mp h
      rw [List.countP_cons]
      by_cases hfn : fn.addr = a
      · have hnone : functions.countP (fun g => g.addr = a) = 0 := by
          rw [List.countP_eq_zero]
          intro g hg
          have hlt := hhead g hg
          simp only [decide_eq_true_eq]
          rintro rfl
          exact absurd (hfn ▸ hlt) (BitVec.lt_irrefl _)
        simp [hnone, hfn]
      · obtain ⟨g, hg, hga⟩ := ha
        have hmem : g ∈ functions := (List.mem_cons.mp hg).resolve_left fun heq => hfn (heq ▸ hga)
        simp [ih htail ⟨g, hmem, hga⟩, hfn]

/-- **`analyze` finds the direct-call closure of its entry points**, one function
for each of its members, and nothing else. -/
theorem analyze_closure {disasm : Disassembler} {reader : ByteReader} (hlawful : disasm.Lawful)
    (hend : ∀ pc insn, fetch disasm reader pc = some insn →
      insn.address.toNat + insn.length.toNat < 2 ^ 64)
    (symbolLookup : Option (U64 → Option String)) (entryPoints : List U64) :
    ∃ bound result,
      (∀ fuel ≥ bound, analyze disasm reader symbolLookup fuel entryPoints = some result) ∧
      result.functions.Pairwise (fun f g => f.addr < g.addr) ∧
      (∀ fn ∈ result.functions, Callable (fetch disasm reader) entryPoints fn.addr) ∧
      (∀ a, Callable (fetch disasm reader) entryPoints a →
        result.functions.countP (fun fn => fn.addr = a) = 1) ∧
      (∀ fn ∈ result.functions, fn.callees.Pairwise (· < ·) ∧
        (∀ c, c ∈ fn.callees ↔ ∃ a insn, Reached (fetch disasm reader) fn.addr a ∧
          fetch disasm reader a = some insn ∧ c ∈ callTargets insn) ∧
        ∀ c ∈ fn.callees, result.functions.countP (fun g => g.addr = c) = 1) := by
  have hplaced := wellPlaced_fetch hlawful hend
  obtain ⟨bound, s, hrun, h, hdone⟩ := run_visitEntry_spec symbolLookup hplaced entryPoints
  have hsorted := pairwise_lt_mergeSort h.distinct
  -- at most one function is at an address, since they are in strict order, and a callable address
  -- has one
  have hone : ∀ a, Callable (fetch disasm reader) entryPoints a →
      (s.data.result.functions.mergeSort fun f g => f.addr ≤ g.addr).countP
        (fun fn => fn.addr = a) = 1 := by
    intro a ha
    obtain ⟨fn, hfn, haddr⟩ :=
      (h.mem_analyzed_iff a).mp ((h.mem_analyzed_iff_callable hdone).mpr ha)
    exact countP_addr_eq_one hsorted ⟨fn, List.mem_mergeSort.mpr hfn, haddr⟩
  have hcallable : ∀ fn ∈ s.data.result.functions,
      Callable (fetch disasm reader) entryPoints fn.addr :=
    fun fn hfn => (h.mem_analyzed_iff_callable hdone).mp ((h.mem_analyzed_iff _).mpr ⟨fn, hfn, rfl⟩)
  refine ⟨bound, { s.data.result with
    functions := s.data.result.functions.mergeSort fun f g => f.addr ≤ g.addr },
    fun fuel hfuel => by rw [analyze, hrun fuel hfuel], hsorted, ?_, hone, ?_⟩
  · exact fun fn hfn => hcallable fn (List.mem_mergeSort.mp hfn)
  · intro fn hfn
    have hmem := List.mem_mergeSort.mp hfn
    have hanalyzed := h.analyzed fn hmem
    refine ⟨hanalyzed.callees_sorted, hanalyzed.mem_callees_iff, fun c hc => hone c ?_⟩
    obtain ⟨a, insn, ha, hinsn, hc⟩ := (hanalyzed.mem_callees_iff c).mp hc
    exact .call (hcallable fn hmem) ha hinsn hc

theorem analyze_closure_small : ∃ bound result,
    (∀ fuel ≥ bound, analyze smallDecoder (imageReader 0x1000 smallImage) none fuel
      [0, 0x1000, 0x1000] = some result) ∧
    result.functions.Pairwise (fun f g => f.addr < g.addr) ∧
    (∀ fn ∈ result.functions,
      Callable (fetch smallDecoder (imageReader 0x1000 smallImage)) [0, 0x1000, 0x1000] fn.addr) ∧
    (∀ a, Callable (fetch smallDecoder (imageReader 0x1000 smallImage)) [0, 0x1000, 0x1000] a →
      result.functions.countP (fun fn => fn.addr = a) = 1) ∧
    (∀ fn ∈ result.functions, fn.callees.Pairwise (· < ·) ∧
      (∀ c, c ∈ fn.callees ↔ ∃ a insn,
        Reached (fetch smallDecoder (imageReader 0x1000 smallImage)) fn.addr a ∧
        fetch smallDecoder (imageReader 0x1000 smallImage) a = some insn ∧
        c ∈ callTargets insn) ∧
      ∀ c ∈ fn.callees, result.functions.countP (fun g => g.addr = c) = 1) :=
  analyze_closure smallDecoder_lawful small_fetch_end none [0, 0x1000, 0x1000]

end Irida.Analysis
