import Irida.Analysis.EntryCode

/-!
# The order of what a run returns

The functions of a run are in the order of their entries, no two of them at one address, and so are
the blocks of each function, one of which starts at the entry.  As in `EntryCode`, nothing is asked
of the decoder: the order comes from the containers that `finalize` and `analyze` keep the blocks
and the functions in, and from the two sorts at the end.
-/

namespace Irida.Analysis

open Disasm

theorem eq_of_addr_eq {α : Type*} {addr : α → U64} {list : List α}
    (h : list.Pairwise fun a b => addr a < addr b) {a b : α} (ha : a ∈ list) (hb : b ∈ list)
    (haddr : addr a = addr b) : a = b := by
  have hne : list.Pairwise fun a b => addr a ≠ addr b := h.imp BitVec.ne_of_lt
  have : Std.Symm fun a b : α => addr a ≠ addr b := ⟨fun _ _ hne => hne.symm⟩
  by_contra hdistinct
  exact hne.forall ha hb hdistinct haddr

theorem head_addr_le {α : Type*} {addr : α → U64} {first : α} {rest : List α}
    (h : (first :: rest).Pairwise fun a b => addr a < addr b) :
    ∀ a ∈ first :: rest, addr first ≤ addr a := by
  intro a ha
  rcases List.mem_cons.mp ha with rfl | hrest
  · exact BitVec.le_refl _
  · exact BitVec.le_of_lt ((List.pairwise_cons.mp h).1 a hrest)

section Build

variable {disasm : Disassembler} {reader : ByteReader} {entry : U64}

theorem Keyed.visit {fuel : ℕ} {start : U64} {b b' : Builder} {found : List U64}
    (h : Keyed b.blocks) (hvisit : visitBlock disasm reader fuel start b = some (b', found)) :
    Keyed b'.blocks := by
  rcases visitBlock_cases hvisit with ⟨-, rfl, -⟩ | ⟨bb, traced, htrace, rfl, -⟩
  · exact h
  have hblocks := (traceBlock_starts htrace).2.1
  dsimp only
  rw [hblocks]
  exact h.insertIfNew rfl

/-- The map that `finalize` lists has a block at the entry, and each block is stored under its
address. -/
theorem build_keyed {fuel : ℕ} {old xrefs : List Xref} {fn : Function} {callees : List U64}
    (h : build disasm reader fuel entry old = some (fn, callees, xrefs)) :
    ∃ blocks : Std.ExtTreeMap U64 BasicBlock, Keyed blocks ∧ entry ∈ blocks ∧
      fn.blocks = blocks.toList.map Prod.snd := by
  obtain ⟨b, hrun, hfinal, -, -⟩ := build_eq_some.mp h
  obtain ⟨s, rfl, ⟨hsound, hkeyed⟩, hdone⟩ := Worklist.run_invariant
    (fun s => BuildSound (fetch disasm reader) entry s ∧ Keyed s.data.blocks)
    (fun s start rest data found hs hwork hvisit => by
      refine ⟨hs.1.visit hwork hvisit, ?_⟩
      rw [Worklist.State.data_enqueueAll]
      exact hs.2.visit hvisit)
    ⟨BuildSound.init _ entry old, fun l bb hbb => by simp at hbb⟩ hrun
  obtain ⟨blocks, hsplit, rfl⟩ := finalize_eq_some.mp hfinal
  have hkept := hkeyed.splitLoop hsplit
  exact ⟨blocks, hkept, mem_splitLoop hsplit (hsound.mem_blocks hdone), hkept.mergeSort_toList⟩

/-- The blocks of a function are in order, and one of them starts at the entry. -/
theorem blocks_ordered {fn : Function} (h : fn.FromBuild disasm reader) :
    (fn.blocks.Pairwise fun a b => a.addr < b.addr) ∧ ∃ bb ∈ fn.blocks, bb.addr = fn.addr := by
  obtain ⟨fuel, old, fn', callees, xrefs, hbuild, hblocks, -⟩ := h
  obtain ⟨blocks, hkeyed, hentry, hlist⟩ := build_keyed hbuild
  rw [hblocks, hlist]
  refine ⟨hkeyed.pairwise_toList, ?_⟩
  have hget := Std.ExtTreeMap.getElem?_eq_some_getElem hentry
  exact ⟨blocks[fn.addr], mem_map_snd_toList.mpr ⟨_, hget⟩, hkeyed _ _ hget⟩

end Build

section Analyze

variable {disasm : Disassembler} {reader : ByteReader}
  {symbolLookup : Option (U64 → Option String)} {entryPoints : List U64}

/-- The functions found so far are at different addresses, all of them visited. -/
def Distinct (a : AnalyzeState) : Prop :=
  (∀ fn ∈ a.result.functions, fn.addr ∈ a.analyzed) ∧
    a.result.functions.Pairwise fun f g => f.addr ≠ g.addr

theorem Distinct.visit {fuel : ℕ} {entry : U64} {a a' : AnalyzeState} {found : List U64}
    (h : Distinct a)
    (hvisit : visitEntry disasm reader symbolLookup fuel entry a = some (a', found)) :
    Distinct a' := by
  rcases visitEntry_cases hvisit with
    ⟨-, rfl, -⟩ | ⟨fn, callees, xrefs, -, hnew, hbuild, rfl, -⟩
  · exact h
  obtain ⟨hanalyzed, hdistinct⟩ := h
  have haddr : fn.addr = entry := (build_sound hbuild).1
  constructor
  · intro g hg
    rcases List.mem_append.mp hg with hg | hg
    · exact Finset.mem_insert_of_mem (hanalyzed g hg)
    · rw [List.mem_singleton.mp hg]
      exact Finset.mem_insert.mpr (Or.inl haddr)
  · apply List.pairwise_append.mpr
    refine ⟨hdistinct, List.pairwise_singleton _ _, fun f hf g hg heq => ?_⟩
    rw [List.mem_singleton.mp hg] at heq
    -- the entry had not been visited
    exact hnew ((heq.trans haddr) ▸ hanalyzed f hf)

/-- **The functions of a run are in order**, and no two of them are at one address. -/
theorem functions_ordered {fuel : ℕ} {result : AnalysisResult}
    (h : analyze disasm reader symbolLookup fuel entryPoints = some result) :
    result.functions.Pairwise fun f g => f.addr < g.addr := by
  obtain ⟨s, hdistinct, -, rfl⟩ := analyze_invariant (fun s => Distinct s.data)
    (fun s entry rest data found hs _ hvisit => by
      rw [Worklist.State.data_enqueueAll]
      exact hs.visit hvisit)
    ⟨fun fn hfn => absurd hfn List.not_mem_nil, List.Pairwise.nil⟩ h
  exact pairwise_lt_mergeSort hdistinct.2

end Analyze

end Irida.Analysis
