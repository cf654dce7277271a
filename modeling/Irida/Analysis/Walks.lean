import Irida.Analysis.Edges
import Irida.Analysis.Partition
import Irida.Lib.Walks

/-!
# Executions are walks through the graph

An execution goes from instruction to instruction along the successors within a function; a call
returns to the instruction after it.  The graph that `build` returns describes exactly these
executions: each of them is a walk along the edges from the block at the entry, through the whole
of every block but the last, and every such walk is one (`build_walks`).

What a block needs for this is that its instructions but the last have only the next one as
a successor (`Chain.succ_inner`), and that the successors of the last one that decode are behind its
edges (`Chain.succ_last`).
-/

namespace Irida.Analysis

open Disasm Walks

/-- The addresses that an execution from the entry goes through. -/
structure Executes (fetch : U64 → Option Instruction) (entry : U64) (path : List U64) : Prop where
  head : path.head? = some entry
  decodes : ∀ a ∈ path, (fetch a).isSome
  steps : path.IsChain (Succ fetch)

/-- A step of an execution. -/
def Step (fetch : U64 → Option Instruction) (a b : U64) : Prop :=
  Succ fetch a b ∧ (fetch b).isSome

variable {fetch : U64 → Option Instruction} {entry a b : U64}
  {insns before after : List Instruction} {insn next : Instruction} {exit : Exit} {path : List U64}

theorem executes_iff :
    Executes fetch entry path ↔ (fetch entry).isSome ∧ Path (Step fetch) (some entry) path := by
  constructor
  · rintro ⟨hhead, hdec, hsteps⟩
    obtain ⟨rest, rfl⟩ := List.head?_eq_some_iff.mp hhead
    refine ⟨hdec entry (List.mem_cons_self ..), List.cons_ne_nil _ _, hhead, ?_⟩
    exact hsteps.imp_of_mem_imp fun x y _ hy hxy => ⟨hxy, hdec y hy⟩
  · rintro ⟨hentry, hne, hhead, hsteps⟩
    obtain ⟨rest, rfl⟩ := List.head?_eq_some_iff.mp hhead
    refine ⟨hhead, ?_, hsteps.imp fun _ _ hstep => hstep.1⟩
    exact hsteps.induction _ _ (fun _ _ hstep _ => hstep.2) fun _ => hentry

/-! ## The successors along a chain -/

namespace Chain

theorem fallsThrough (hplaced : WellPlaced fetch)
    (h : Chain fetch a (before ++ insn :: next :: after) exit) :
    FallsThrough insn ∧ next.address = insn.next := by
  obtain ⟨b, hsuffix⟩ := h.exists_suffix
  cases hsuffix with
  | more _ hfalls hrest => exact ⟨hfalls, hrest.head_address hplaced.toPlaced⟩

/-- What ends a chain is decided by its last instruction. -/
theorem exit_of_last (h : Chain fetch a (before ++ [insn]) exit) :
    (insn.flow = .jump ∧ exit = .jump insn.branchTarget) ∨
      (insn.flow = .condJump ∧ exit = .condJump insn.branchTarget insn.next) ∨
      (insn.flow = .ret ∧ exit = .ret) ∨
      FallsThrough insn ∧ (exit = .cut insn.next ∨ exit = .dead ∧ fetch insn.next = none) := by
  obtain ⟨b, hsuffix⟩ := h.exists_suffix
  cases hsuffix with
  | jump _ hflow => exact Or.inl ⟨hflow, rfl⟩
  | condJump _ hflow => exact Or.inr (Or.inl ⟨hflow, rfl⟩)
  | ret _ hflow => exact Or.inr (Or.inr (Or.inl ⟨hflow, rfl⟩))
  | more _ hfalls hrest =>
      refine Or.inr (Or.inr (Or.inr ⟨hfalls, ?_⟩))
      cases hrest with
      | dead hnone => exact Or.inr ⟨rfl, hnone⟩
      | cut => exact Or.inl rfl

/-- The only successor of an instruction that is not the last one. -/
theorem succ_inner (hplaced : WellPlaced fetch)
    (h : Chain fetch a (before ++ insn :: next :: after) exit) :
    Succ fetch insn.address b ↔ b = next.address := by
  obtain ⟨hfalls, hnext⟩ := h.fallsThrough hplaced
  have hinsn := h.fetch_eq hplaced.toPlaced insn (by simp)
  rw [hnext]
  constructor
  · intro hsucc
    rcases hsucc.of_fetch hinsn with ⟨heq, -⟩ | ⟨-, hbr⟩
    · exact heq
    · rcases hfalls with hflow | hflow <;> simp [Branches, hflow] at hbr
  · rintro rfl
    exact .next hinsn (Or.inl hfalls)

/-- The successors of the last instruction that decode are those that are registered as
leaders, or the address that the chain is cut at. -/
theorem succ_last (hplaced : WellPlaced fetch) (h : Chain fetch a (before ++ [insn]) exit)
    (hdec : (fetch b).isSome) :
    Succ fetch insn.address b ↔ b ∈ exit.newLeaders ∨ exit = .cut b := by
  have hinsn := h.fetch_eq hplaced.toPlaced insn (by simp)
  constructor
  · intro hsucc
    -- whether it falls through or branches, its flow decides the end of the chain
    rcases hsucc.of_fetch hinsn with ⟨rfl, hflow⟩ | ⟨rfl, hbr⟩
    · rcases h.exit_of_last with ⟨hjump, -⟩ | ⟨-, rfl⟩ | ⟨hret, -⟩ | ⟨-, rfl | ⟨-, hnone⟩⟩
      · simp [FallsThrough, hjump] at hflow
      · exact Or.inl (by simp [Exit.newLeaders])
      · simp [FallsThrough, hret] at hflow
      · exact Or.inr rfl
      · simp [hnone] at hdec
    · rcases h.exit_of_last with ⟨-, rfl⟩ | ⟨-, rfl⟩ | ⟨hret, -⟩ | ⟨hfalls, -⟩
      · exact Or.inl (mem_direct.mpr ⟨rfl, hbr.2⟩)
      · exact Or.inl (List.mem_append_left _ (mem_direct.mpr ⟨rfl, hbr.2⟩))
      · simp [Branches, hret] at hbr
      · rcases hfalls with hflow | hflow <;> simp [Branches, hflow] at hbr
  · intro hedge
    rcases h.exit_of_last with ⟨hflow, rfl⟩ | ⟨hflow, rfl⟩ | ⟨-, rfl⟩ | ⟨hfalls, rfl | ⟨rfl, -⟩⟩
    · have hb : b = insn.branchTarget ∧ insn.branchTarget ≠ 0 := by
        simpa [Exit.newLeaders] using hedge
      obtain ⟨rfl, htarget⟩ := hb
      exact .target hinsn ⟨Or.inl hflow, htarget⟩
    · have hb : (b = insn.branchTarget ∧ insn.branchTarget ≠ 0) ∨ b = insn.next := by
        simpa [Exit.newLeaders] using hedge
      rcases hb with ⟨rfl, htarget⟩ | rfl
      · exact .target hinsn ⟨Or.inr hflow, htarget⟩
      · exact .next hinsn (Or.inr hflow)
    · simp [Exit.newLeaders] at hedge
    · have hb : insn.next = b := by simpa [Exit.newLeaders] using hedge
      rw [← hb]
      exact .next hinsn (Or.inl hfalls)
    · simp [Exit.newLeaders] at hedge

end Chain

/-! ## The blocks of a function -/

namespace CanonicalBlock

variable {leader : U64 → Prop} {bb : BasicBlock}

/-- The edges of a canonical block. -/
theorem edgeTo_iff (hplaced : WellPlaced fetch) (h : CanonicalBlock fetch leader bb insns exit) :
    bb.EdgeTo b ↔ b ∈ exit.newLeaders ∨ exit = .cut b := by
  have hblock : bb.EdgeTo b ↔ (blockOf bb.addr insns exit).EdgeTo b := by
    simp only [BasicBlock.EdgeTo, blockOf, h.jump, h.fail]
  rw [hblock, edgeTo_blockOf, and_iff_right_iff_imp]
  rintro (hnew | hcut)
  · exact h.chain.ne_zero_of_mem_newLeaders hplaced b hnew
  · obtain ⟨insn, rest, hinsns⟩ := List.exists_cons_of_ne_nil (h.cut hcut).2
    exact h.chain.ne_zero_of_cut hplaced hcut (hinsns ▸ List.mem_cons_self ..)

theorem head_instrAddrs (hplaced : WellPlaced fetch)
    (h : CanonicalBlock fetch leader bb insns exit) (hb : bb.instrAddrs.head? = some b) :
    b = bb.addr ∧ (fetch b).isSome := by
  rw [h.instrAddrs] at hb
  cases hinsns : insns with
  | nil => simp [hinsns] at hb
  | cons first rest =>
      have hchain := h.chain
      rw [hinsns] at hb hchain
      simp only [List.map_cons, List.head?_cons, Option.some.injEq] at hb
      have hfetch := hchain.fetch_eq hplaced.toPlaced first (List.mem_cons_self ..)
      rw [← hb, hfetch]
      exact ⟨hchain.head_address hplaced.toPlaced, rfl⟩

theorem head_of_isSome (hplaced : WellPlaced fetch)
    (h : CanonicalBlock fetch leader bb insns exit) (hdec : (fetch bb.addr).isSome) :
    bb.instrAddrs.head? = some bb.addr := by
  have hne : insns ≠ [] := by
    by_cases hcut : exit = .cut bb.addr
    · exact (h.cut hcut).2
    · exact h.chain.ne_nil hdec hcut
  obtain ⟨first, rest, rfl⟩ := List.exists_cons_of_ne_nil hne
  rw [h.instrAddrs, List.map_cons, List.head?_cons, h.chain.head_address hplaced.toPlaced]

theorem ne_nil_of_edgeTo (hplaced : WellPlaced fetch)
    (h : CanonicalBlock fetch leader bb insns exit) (hedge : bb.EdgeTo b) : insns ≠ [] := by
  rintro rfl
  have hchain := h.chain
  rcases (h.edgeTo_iff hplaced).mp hedge with hnew | hcut
  · cases hchain <;> simp [Exit.newLeaders] at hnew
  · exact (h.cut hcut).2 rfl

end CanonicalBlock

namespace CanonicalFunction

variable {fn : Function}

theorem leader_of_edge (hplaced : WellPlaced fetch) (h : CanonicalFunction fetch entry fn)
    {bb : BasicBlock} (hbb : bb ∈ fn.blocks)
    (hblock : CanonicalBlock fetch (Leader fetch entry) bb insns exit) (hedge : bb.EdgeTo b) :
    Leader fetch entry b := by
  have hstart := ((h.mem_addr_iff bb.addr).mp ⟨bb, hbb, rfl⟩).reached
  rcases (hblock.edgeTo_iff hplaced).mp hedge with hnew | hcut
  · exact hblock.chain.leader_of_mem_newLeaders hstart b hnew
  · exact (hblock.cut hcut).1

/-- **The blocks represent the steps.** -/
theorem represents (hplaced : WellPlaced fetch) (h : CanonicalFunction fetch entry fn) :
    Represents (Step fetch) (· ∈ fn.blocks) BasicBlock.instrAddrs (LeadsTo fn.blocks) where
  closed _ hedge := hedge.1
  nonempty {bb _} hbb hedge := by
    obtain ⟨insns, exit, hblock⟩ := h.blocks bb hbb
    rw [hblock.instrAddrs, ne_eq, List.map_eq_nil_iff]
    exact hblock.ne_nil_of_edgeTo hplaced hedge.2
  -- within a block the next instruction is the only successor
  inner {bb before x y after z} hbb heq := by
    obtain ⟨insns, exit, hblock⟩ := h.blocks bb hbb
    rw [hblock.instrAddrs] at heq
    obtain ⟨first, rest, rfl, -, hrest⟩ := List.map_eq_append_iff.mp heq
    obtain ⟨insn, rest', rfl, rfl, hrest'⟩ := List.map_eq_cons_iff.mp hrest
    obtain ⟨next, last, rfl, rfl, -⟩ := List.map_eq_cons_iff.mp hrest'
    have hnext := hblock.chain.fetch_eq hplaced.toPlaced next (by simp)
    rw [Step, hblock.chain.succ_inner hplaced, and_iff_left_iff_imp]
    rintro rfl
    simp [hnext]
  -- behind the last one the successors that decode are at the edges of the block
  outer {bb before x z} hbb heq := by
    obtain ⟨insns, exit, hblock⟩ := h.blocks bb hbb
    rw [hblock.instrAddrs] at heq
    obtain ⟨first, rest, rfl, -, hrest⟩ := List.map_eq_append_iff.mp heq
    obtain ⟨insn, hrest', rfl⟩ := List.map_eq_singleton_iff.mp hrest
    subst hrest'
    constructor
    · rintro ⟨hsucc, hdec⟩
      have hedge := (hblock.edgeTo_iff hplaced).mpr ((hblock.chain.succ_last hplaced hdec).mp hsucc)
      obtain ⟨bb', hbb', rfl⟩ := (h.mem_addr_iff z).mpr
        (h.leader_of_edge hplaced hbb hblock hedge)
      obtain ⟨insns', exit', hblock'⟩ := h.blocks bb' hbb'
      exact ⟨bb', ⟨hbb', hedge⟩, hblock'.head_of_isSome hplaced hdec⟩
    · rintro ⟨bb', ⟨hbb', hedge⟩, hhead⟩
      obtain ⟨insns', exit', hblock'⟩ := h.blocks bb' hbb'
      obtain ⟨rfl, hdec⟩ := hblock'.head_instrAddrs hplaced hhead
      exact ⟨(hblock.chain.succ_last hplaced hdec).mpr ((hblock.edgeTo_iff hplaced).mp hedge), hdec⟩
  unique {bb bb' bb'' z} _ hedge hedge' hhead hhead' := by
    obtain ⟨insns, exit, hblock⟩ := h.blocks bb' hedge.1
    obtain ⟨insns', exit', hblock'⟩ := h.blocks bb'' hedge'.1
    refine h.eq_of_addr_eq hedge.1 hedge'.1 ?_
    rw [← (hblock.head_instrAddrs hplaced hhead).1, (hblock'.head_instrAddrs hplaced hhead').1]

/-- An execution is a walk from the block at the entry. -/
theorem executes_iff_walk (hplaced : WellPlaced fetch) (h : CanonicalFunction fetch entry fn) :
    ∃ first ∈ fn.blocks, first.addr = entry ∧ ∀ path, Executes fetch entry path ↔
      ∃! walk, Covers BasicBlock.instrAddrs (LeadsTo fn.blocks) first walk path := by
  obtain ⟨first, hfirst, rfl⟩ := (h.mem_addr_iff entry).mpr .entry
  obtain ⟨insns, exit, hblock⟩ := h.blocks first hfirst
  refine ⟨first, hfirst, rfl, fun path => ?_⟩
  rw [executes_iff, ← (h.represents hplaced).path_iff hfirst]
  constructor
  · rintro ⟨hdec, hpath⟩
    rwa [hblock.head_of_isSome hplaced hdec]
  · intro hpath
    obtain ⟨a, ha⟩ := Option.isSome_iff_exists.mp (List.isSome_head?.mpr hpath.ne_nil)
    obtain ⟨rfl, hdec⟩ := hblock.head_instrAddrs hplaced (hpath.head ▸ ha)
    rw [hblock.head_of_isSome hplaced hdec] at hpath
    exact ⟨hdec, hpath⟩

end CanonicalFunction

/-! ## `build` -/

/-- **The graph describes the executions**: what an execution from the entry goes through is
exactly what a walk along the edges of the returned blocks lists, up to a point in its
last block, and no other walk lists the same. -/
theorem build_walks {disasm : Disassembler} {reader : ByteReader} (hlawful : disasm.Lawful)
    (hend : ∀ pc insn, Analysis.fetch disasm reader pc = some insn →
      insn.address.toNat + insn.length.toNat < 2 ^ 64)
    (entry : U64) (old : List Xref) : ∃ bound fn callees xrefs,
      (∀ fuel ≥ bound, build disasm reader fuel entry old = some (fn, callees, xrefs)) ∧
      ∃ first ∈ fn.blocks, first.addr = entry ∧
        ∀ path, Executes (Analysis.fetch disasm reader) entry path ↔
          ∃! walk, Covers BasicBlock.instrAddrs (LeadsTo fn.blocks) first walk path := by
  have hplaced := wellPlaced_fetch hlawful hend
  obtain ⟨bound, fn, s, hrun, hcanon, -⟩ := build_spec hplaced entry old
  exact ⟨bound, fn, s.data.callees, s.data.xrefs, hrun, hcanon.executes_iff_walk hplaced⟩

theorem build_walks_small : ∃ bound fn callees xrefs,
    (∀ fuel ≥ bound, build smallDecoder (imageReader 0x1000 smallImage) fuel 0x1000 [] =
      some (fn, callees, xrefs)) ∧
    ∃ first ∈ fn.blocks, first.addr = 0x1000 ∧
      ∀ path, Executes (Analysis.fetch smallDecoder (imageReader 0x1000 smallImage)) 0x1000 path ↔
        ∃! walk, Covers BasicBlock.instrAddrs (LeadsTo fn.blocks) first walk path :=
  build_walks smallDecoder_lawful small_fetch_end 0x1000 []

end Irida.Analysis
