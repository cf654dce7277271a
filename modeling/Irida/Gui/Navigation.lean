import Irida.Gui.GraphView

/-!
# Navigation in the graph view

`onNavigation` takes the first function whose size reaches from its entry to the address.  The size
of a function is the sum of the sizes of its blocks, so that this is the right function only if the
blocks follow the entry without a gap and no other function lies among them.

An address is answered rightly exactly if it does not stray (`navigates_iff`).  There are three ways
to stray.  An instruction may be out of the reach of the functions that have it, being below their
entries or beyond a gap.  It may be in the reach of a function before them that does not have it.
And an address in a gap is in the reach of a function, although no block has it.  Functions that
their reach describes do none of this (`navigates_of_compact`).
-/

namespace Irida.Gui

open Analysis Api Disasm

/-- One of the blocks of the function contains the instruction that starts at the address. -/
def Owns (fn : Function) (a : U64) : Prop :=
  ∃ bb ∈ fn.blocks, a ∈ bb.instrAddrs

/-- The address is in one of the blocks of the function. -/
def Holds (fn : Function) (a : U64) : Prop :=
  ∃ bb ∈ fn.blocks, a - bb.addr < bb.size

/-- The address is no further from the entry than the blocks of the function are long together. -/
def Reaches (fn : Function) (a : U64) : Prop :=
  fn.addr ≤ a ∧ a < fn.addr + (fn.blocks.map BasicBlock.size).sum

/-- The blocks of the function are in view. -/
def GraphView.Shows (view : GraphView) (fn : Function) : Prop :=
  view.currentFn = fn.addr ∧ view.shown.map GraphBlock.bb = fn.blocks.map blockRow

section

variable (result : AnalysisResult)

/-- What is promised: an instruction leads to a function that has it, and an address in no block
leads nowhere. -/
structure Navigates (disasm : U64 → U64 → List InsnRow) (a : U64) : Prop where
  finds : (∃ fn ∈ result.functions, Owns fn a) →
    ∃ fn ∈ result.functions, Owns fn a ∧ ∀ view, (onNavigation result disasm a view).Shows fn
  stays : (∀ fn ∈ result.functions, ¬ Holds fn a) → ∀ view, onNavigation result disasm a view = view

/-- The reach of the functions is right about the address. -/
structure NotAstray (a : U64) : Prop where
  reached : (∃ fn ∈ result.functions, Owns fn a) →
    ∃ fn ∈ result.functions, Owns fn a ∧ Reaches fn a ∧
      ∀ g ∈ result.functions, g.addr < fn.addr → Reaches g a → Owns g a
  gap : (∀ fn ∈ result.functions, ¬ Holds fn a) → ∀ fn ∈ result.functions, ¬ Reaches fn a

end

/-! ## The function in view -/

section View

variable {result : AnalysisResult} (disasm : U64 → U64 → List InsnRow) {fn : Function}

theorem functionBlocks_eq (hsorted : result.functions.Pairwise fun f g => f.addr < g.addr)
    (hfn : fn ∈ result.functions) : functionBlocks result fn.addr = fn.blocks.map blockRow := by
  have hfind : result.functions.find? (fun g => g.addr = fn.addr) = some fn := by
    cases hfirst : result.functions.find? fun g => g.addr = fn.addr with
    | none => exact absurd (decide_eq_true rfl) (List.find?_eq_none.mp hfirst fn hfn)
    | some g =>
        have haddr : g.addr = fn.addr := by simpa using List.find?_some hfirst
        rw [eq_of_addr_eq hsorted (List.mem_of_find?_eq_some hfirst) hfn haddr]
  rw [functionBlocks, hfind]

theorem length_placeRest (low : ℕ) (layers : List (Option ℕ)) :
    (placeRest low layers).length = layers.length := by
  fun_induction placeRest low layers with
  | case1 => rfl
  | case2 low layer rest ih => rw [List.length_cons, List.length_cons, ih]
  | case3 low rest ih => rw [List.length_cons, List.length_cons, ih]

theorem map_bb_layout (blocks : List GraphBlock) :
    (layout blocks).map GraphBlock.bb = blocks.map GraphBlock.bb := by
  rw [layout, List.map_zipWith]
  apply List.ext_getElem?
  intro i
  rw [List.getElem?_zipWith, List.getElem?_map]
  cases hblock : blocks[i]? with
  | none => rfl
  | some b =>
      -- there is a layer for each block
      have hlt : i < blocks.length := (List.getElem?_eq_some_iff.mp hblock).1
      rw [List.getElem?_eq_getElem (by simpa [length_placeRest] using hlt)]
      rfl

theorem shows_showFunction (hsorted : result.functions.Pairwise fun f g => f.addr < g.addr)
    (hfn : fn ∈ result.functions) : (showFunction result disasm fn.addr).Shows fn := by
  refine ⟨rfl, ?_⟩
  rw [showFunction, map_bb_layout, buildBlocks, List.map_map, functionBlocks_eq hsorted hfn]
  exact List.map_id' _

theorem not_shows (fn : Function) : ¬ ∀ view : GraphView, view.Shows fn := by
  intro h
  have hother : fn.addr + 1 = fn.addr := (h ⟨fn.addr + 1, []⟩).1
  exact absurd hother (by simp)

theorem GraphView.Shows.unique (hsorted : result.functions.Pairwise fun f g => f.addr < g.addr)
    {view : GraphView} {g : Function} (hfn : fn ∈ result.functions) (hg : g ∈ result.functions)
    (h : view.Shows fn) (h' : view.Shows g) : fn = g :=
  eq_of_addr_eq hsorted hfn hg (h.1.symm.trans h'.1)

end View

/-! ## The first function that reaches the address -/

section First

variable {result : AnalysisResult} (disasm : U64 → U64 → List InsnRow) {a : U64}

/-- The sizes are the sums of the sizes of the blocks. -/
def Summed (result : AnalysisResult) : Prop :=
  ∀ fn ∈ result.functions, fn.size = (fn.blocks.map BasicBlock.size).sum

theorem reaches_iff (hsum : Summed result) {fn : Function} (hfn : fn ∈ result.functions) :
    decide (a ≥ (functionRow fn).addr ∧ a < (functionRow fn).addr + (functionRow fn).size) = true ↔
      Reaches fn a := by
  rw [decide_eq_true_eq, Reaches, ← hsum fn hfn]
  rfl

theorem onNavigation_of_none (hsum : Summed result)
    (h : ∀ fn ∈ result.functions, ¬ Reaches fn a) (view : GraphView) :
    onNavigation result disasm a view = view := by
  have hfind : (functions result).find? (fun fn => a ≥ fn.addr ∧ a < fn.addr + fn.size) = none := by
    rw [List.find?_eq_none]
    intro row hrow
    obtain ⟨fn, hfn, rfl⟩ := List.mem_map.mp hrow
    exact mt (reaches_iff hsum hfn).mp (h fn hfn)
  rw [onNavigation, hfind]

/-- An address that some function reaches leads to the first function that does. -/
theorem onNavigation_of_reaches (hsum : Summed result)
    (hsorted : result.functions.Pairwise fun f g => f.addr < g.addr)
    (h : ∃ fn ∈ result.functions, Reaches fn a) :
    ∃ first ∈ result.functions, Reaches first a ∧
      (∀ g ∈ result.functions, Reaches g a → first.addr ≤ g.addr) ∧
      ∀ view, onNavigation result disasm a view = showFunction result disasm first.addr := by
  cases hfind : (functions result).find? fun fn => a ≥ fn.addr ∧ a < fn.addr + fn.size with
  | none =>
      obtain ⟨fn, hfn, hreaches⟩ := h
      exact absurd ((reaches_iff hsum hfn).mpr hreaches)
        (List.find?_eq_none.mp hfind _ (List.mem_map_of_mem hfn))
  | some row =>
      have hshow : ∀ view, onNavigation result disasm a view =
          showFunction result disasm row.addr := fun view => by rw [onNavigation, hfind]
      rw [functions, List.find?_map, Option.map_eq_some_iff] at hfind
      obtain ⟨first, hfirst, rfl⟩ := hfind
      obtain ⟨htest, before, after, hlist, hbefore⟩ := List.find?_eq_some_iff_append.mp hfirst
      have hmem := List.mem_of_find?_eq_some hfirst
      refine ⟨first, hmem, (reaches_iff hsum hmem).mp htest, fun g hg hreaches => ?_, hshow⟩
      have hpass := (reaches_iff hsum hg).mpr hreaches
      rw [hlist] at hsorted hg
      rcases List.mem_append.mp hg with hg | hg
      · -- what comes before it in the list does not reach the address
        have hfail := hbefore g hg
        rw [Function.comp_apply, hpass] at hfail
        cases hfail
      · exact head_addr_le (List.pairwise_append.mp hsorted).2.1 g hg

end First

/-! ## When navigation is right -/

section Analyze

variable {disassembler : Disassembler} {reader : ByteReader}
  {symbolLookup : Option (U64 → Option String)} {entryPoints : List U64} {fuel : ℕ}
  {result : AnalysisResult} {disasm : U64 → U64 → List InsnRow}

theorem summed_analyze
    (h : analyze disassembler reader symbolLookup fuel entryPoints = some result) : Summed result :=
  fun fn hfn => size_of_fromBuild (analyze_fromBuild h fn hfn)

/-- **Which addresses are answered rightly**: those that do not stray. -/
theorem navigates_iff
    (h : analyze disassembler reader symbolLookup fuel entryPoints = some result) (a : U64) :
    Navigates result disasm a ↔ NotAstray result a := by
  have hsum := summed_analyze h
  have hsorted := functions_ordered h
  -- the search stops at the first function that reaches the address, if one does
  by_cases hreached : ∃ fn ∈ result.functions, Reaches fn a
  · obtain ⟨first, hfirst, hreaches, hleast, hshow⟩ :=
      onNavigation_of_reaches disasm hsum hsorted hreached
    have hshown := shows_showFunction disasm hsorted hfirst
    constructor
    · intro hnav
      constructor
      · intro howner
        obtain ⟨fn, hfn, howns, hview⟩ := hnav.finds howner
        have hsame : (showFunction result disasm first.addr).Shows fn := hshow {} ▸ hview {}
        obtain rfl := hshown.unique hsorted hfirst hfn hsame
        exact ⟨first, hfirst, howns, hreaches, fun g hg hlt hg' =>
          absurd hlt (BitVec.not_lt.mpr (hleast g hg hg'))⟩
      -- the view that shows nothing would show the function
      · intro hgap
        refine absurd (fun view => ?_) (not_shows first)
        rw [← hnav.stays hgap view, hshow view]
        exact hshown
    · intro hstray
      constructor
      · intro howner
        obtain ⟨fn, hfn, howns, hreach, hlower⟩ := hstray.reached howner
        refine ⟨first, hfirst, ?_, fun view => (hshow view).symm ▸ hshown⟩
        -- a lower function that reaches the address owns it as well
        by_cases heq : first.addr = fn.addr
        · rwa [eq_of_addr_eq hsorted hfirst hfn heq]
        · exact hlower first hfirst (BitVec.lt_of_le_ne (hleast fn hfn hreach) heq) hreaches
      · intro hgap
        exact absurd hreaches (hstray.gap hgap first hfirst)
  · have hnone : ∀ fn ∈ result.functions, ¬ Reaches fn a :=
      fun fn hfn hreaches => hreached ⟨fn, hfn, hreaches⟩
    have hstay := onNavigation_of_none disasm hsum hnone
    constructor
    · intro hnav
      refine ⟨fun howner => ?_, fun _ => hnone⟩
      obtain ⟨fn, -, -, hview⟩ := hnav.finds howner
      exact absurd (fun view => hstay view ▸ hview view) (not_shows fn)
    · intro hstray
      refine ⟨fun howner => ?_, fun _ => hstay⟩
      obtain ⟨fn, hfn, -, hreach, -⟩ := hstray.reached howner
      exact absurd hreach (hnone fn hfn)

/-- A function reaches exactly what its blocks hold: they follow the entry without a gap. -/
def Compact (fn : Function) : Prop :=
  ∀ a, Reaches fn a ↔ Holds fn a

/-- The instructions of a function are in its blocks. -/
theorem holds_of_owns {fetch : U64 → Option Instruction} (hplaced : WellPlaced fetch)
    {fn : Function} (hcanon : CanonicalFunction fetch fn.addr fn) {a : U64} (h : Owns fn a) :
    Holds fn a := by
  obtain ⟨bb, hbb, ha⟩ := h
  obtain ⟨insns, exit, hblock⟩ := hcanon.blocks bb hbb
  rw [hblock.instrAddrs] at ha
  obtain ⟨insn, hinsn, rfl⟩ := List.mem_map.mp ha
  obtain ⟨hlow, hhigh⟩ := (hblock.chain.bounds hplaced).2 insn hinsn
  have hsize : bb.size.toNat = natSize insns := by
    rw [hblock.size]
    exact hblock.chain.toNat_sizeOf hplaced
  refine ⟨bb, hbb, ?_⟩
  rw [BitVec.lt_def, BitVec.toNat_sub_of_le hlow, hsize]
  omega

/-- Compact functions that lie apart from one another are always found. -/
theorem navigates_of_compact (hlawful : disassembler.Lawful)
    (hend : ∀ pc insn, fetch disassembler reader pc = some insn →
      insn.address.toNat + insn.length.toNat < 2 ^ 64)
    (h : analyze disassembler reader symbolLookup fuel entryPoints = some result)
    (hcompact : ∀ fn ∈ result.functions, Compact fn)
    (hapart : ∀ f ∈ result.functions, ∀ g ∈ result.functions, ∀ a, Holds f a → Holds g a → f = g)
    (a : U64) : Navigates result disasm a := by
  have hplaced := wellPlaced_fetch hlawful hend
  have hcanon := (analyze_progress hplaced h).2
  apply (navigates_iff h a).mpr
  constructor
  · rintro ⟨fn, hfn, howns⟩
    have hholds := holds_of_owns hplaced (hcanon fn hfn) howns
    refine ⟨fn, hfn, howns, (hcompact fn hfn a).mpr hholds, fun g hg _ hreaches => ?_⟩
    rwa [hapart g hg fn hfn a ((hcompact g hg a).mp hreaches) hholds]
  · intro hgap fn hfn hreaches
    exact hgap fn hfn ((hcompact fn hfn a).mp hreaches)

end Analyze

theorem navigates_iff_small : ∃ fuel result,
    analyze smallDecoder (imageReader 0x1000 smallImage) none fuel [0x1000] = some result ∧
    (Navigates result (fun _ _ => []) 0x1004 ↔ NotAstray result 0x1004) := by
  obtain ⟨fuel, result, hrun⟩ :=
    exists_analyze (wellPlaced_fetch smallDecoder_lawful small_fetch_end) none [0x1000]
  exact ⟨fuel, result, hrun, navigates_iff hrun 0x1004⟩

/-! ## A block below the entry -/

/-- `0x1000: ret; 0x1001: jne 0x1000`. -/
def belowImage : Bytes := [0xC3, 0x75, 0xFD]

/-- The only function that is found at the branch has a block at the `ret` before it. -/
theorem below_function : ∃ fuel result,
    analyze smallDecoder (imageReader 0x1000 belowImage) none fuel [0x1001] = some result ∧
    (∀ fn ∈ result.functions, fn.addr = 0x1001) ∧
    ∃ fn ∈ result.functions, ∃ bb ∈ fn.blocks, bb.addr = 0x1000 ∧ 0x1000 ∈ bb.instrAddrs := by
  have hplaced := wellPlaced_fetch smallDecoder_lawful
    (@image_fetch_end 0x1000 belowImage (by decide))
  obtain ⟨fuel, result, hrun⟩ := exists_analyze hplaced none [0x1001]
  obtain ⟨fn, hfn, haddr⟩ := (analyze_rooted hrun).2 0x1001 (List.mem_singleton_self _) (by decide)
  have hcanon := (analyze_progress hplaced hrun).2 fn hfn
  have hjne : fetch smallDecoder (imageReader 0x1000 belowImage) 0x1001 =
      some { address := 0x1001, length := 2, flow := .condJump, branchTarget := 0x1000 } := by
    decide
  rw [haddr] at hcanon
  have hleader : Leader (fetch smallDecoder (imageReader 0x1000 belowImage)) 0x1001 0x1000 :=
    .target (.entry (by rw [hjne]; rfl)) hjne ⟨Or.inr rfl, by decide⟩
  obtain ⟨bb, hbb, hstart⟩ := (hcanon.mem_addr_iff 0x1000).mpr hleader
  obtain ⟨insns, exit, hblock⟩ := hcanon.blocks bb hbb
  have hret : (fetch smallDecoder (imageReader 0x1000 belowImage) bb.addr).isSome := by
    rw [hstart]
    decide
  obtain ⟨insn, hinsn, hat⟩ :=
    hblock.chain.exists_head hplaced.toPlaced hret fun hcut => (hblock.cut hcut).2
  refine ⟨fuel, result, hrun, fun g hg => ?_, fn, hfn, bb, hbb, hstart, ?_⟩
  · -- there is no call
    cases (analyze_rooted hrun).1 g hg with
    | entry hmem _ => exact List.mem_singleton.mp hmem
    | @call _ _ _ insn _ _ hfetch hcall =>
        rw [callTargets] at hcall
        split at hcall
        · next hflow => exact absurd ((image_opcode hfetch).2.2 hflow) (by decide)
        · cases hcall
  · rw [hblock.instrAddrs, ← hstart, ← hat]
    exact List.mem_map_of_mem hinsn

/-- **Navigation does not always find the function.**  The `ret` below the entry of its function
leads nowhere. -/
theorem not_navigates_below : ∃ fuel result,
    analyze smallDecoder (imageReader 0x1000 belowImage) none fuel [0x1001] = some result ∧
    (∃ fn ∈ result.functions, Owns fn 0x1000) ∧ ¬ Navigates result (fun _ _ => []) 0x1000 := by
  obtain ⟨fuel, result, hrun, haddr, fn, hfn, bb, hbb, -, hinsn⟩ := below_function
  have howner : ∃ fn ∈ result.functions, Owns fn 0x1000 := ⟨fn, hfn, bb, hbb, hinsn⟩
  refine ⟨fuel, result, hrun, howner, fun hnav => ?_⟩
  have hnone : ∀ fn ∈ result.functions, ¬ Reaches fn 0x1000 := by
    intro g hg hreaches
    have hle := hreaches.1
    rw [haddr g hg] at hle
    exact absurd hle (by decide)
  obtain ⟨g, -, -, hview⟩ := hnav.finds howner
  refine not_shows g fun view => ?_
  have hstay := onNavigation_of_none (fun _ _ => []) (summed_analyze hrun) hnone view
  exact hstay ▸ hview view

end Irida.Gui
