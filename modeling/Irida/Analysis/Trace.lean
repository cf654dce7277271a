import Irida.Analysis.Chain
import Mathlib.Tactic.Tauto

/-!
# What `trace_block` does

`traceBlock_traced` says once what tracing a block from a leader does: it follows
a chain that stays clear of the leaders known so far, returns the block the
chain makes up, and records the leaders, the call targets and the references of
the chain.  Everything later about tracing goes through it.
-/

namespace Irida.Analysis

open Disasm

/-- The members of the builder after a chain has been traced. -/
def Builder.record (b : Builder) (insns : List Instruction) (exit : Exit) : Builder :=
  { b with
    leaders := exit.newLeaders.foldl (fun leaders l => leaders.insert l) b.leaders
    callees := b.callees ++ insns.flatMap callTargets
    xrefs := b.xrefs ++ insns.flatMap refs }

namespace Builder

variable {b : Builder} {insns : List Instruction} {exit : Exit}

@[simp] theorem callees_record : (b.record insns exit).callees =
    b.callees ++ insns.flatMap callTargets := rfl

@[simp] theorem xrefs_record : (b.record insns exit).xrefs = b.xrefs ++ insns.flatMap refs := rfl

@[simp] theorem blocks_record : (b.record insns exit).blocks = b.blocks := rfl

theorem mem_foldl_insert {found : List U64} {leaders : Std.ExtTreeSet U64} {l : U64} :
    l ∈ found.foldl (fun leaders l => leaders.insert l) leaders ↔ l ∈ leaders ∨ l ∈ found := by
  induction found generalizing leaders with
  | nil => simp
  | cons x found ih =>
      rw [List.foldl_cons, ih, List.mem_cons, Std.ExtTreeSet.mem_insert, Std.compare_eq_iff_eq,
        eq_comm (a := x)]
      tauto

@[simp] theorem mem_leaders_record {l : U64} :
    l ∈ (b.record insns exit).leaders ↔ l ∈ b.leaders ∨ l ∈ exit.newLeaders :=
  mem_foldl_insert

theorem record_cons (insn : Instruction) :
    b.record (insn :: insns) exit = (b.record [insn] .dead).record insns exit := by
  simp [record, Exit.newLeaders]

end Builder

/-- A chain that `trace_block` can follow from `start` with these leaders known. -/
structure Traced (fetch : U64 → Option Instruction) (leaders : Std.ExtTreeSet U64)
    (start a : U64) (insns : List Instruction) (exit : Exit) : Prop where
  chain : Chain fetch a insns exit
  clear : ∀ insn ∈ insns, insn.address ≠ start → insn.address ∉ leaders
  cut_mem : ∀ {next : U64}, exit = .cut next → next ∈ leaders ∧ next ≠ start

section Loop

variable {disasm : Disassembler} {reader : ByteReader}

theorem traceLoop_of_fetch_none {start pc : U64} {fuel : ℕ} {bb : BasicBlock}
    {b : Builder} (hfree : ¬ (pc ≠ start ∧ pc ∈ b.leaders))
    (hnone : fetch disasm reader pc = none) :
    traceLoop disasm reader start (fuel + 1) pc bb b = some (bb, b) := by
  rw [traceLoop, if_neg hfree]
  simp only [fetch] at hnone
  split at hnone
  · next hlen => simp [hlen]
  · next hlen =>
      split at hnone
      · next heq => simp [hlen, heq]
      · simp at hnone

theorem traceLoop_of_fetch_some {start pc : U64} {fuel : ℕ} {bb : BasicBlock}
    {b : Builder} {insn : Instruction} (hfree : ¬ (pc ≠ start ∧ pc ∈ b.leaders))
    (hsome : fetch disasm reader pc = some insn) :
    traceLoop disasm reader start (fuel + 1) pc bb b =
      match insn.flow with
      | .jump => some ({ bb.push insn with
          jump := if insn.branchTarget ≠ 0 then insn.branchTarget else bb.jump },
          b.record [insn] (.jump insn.branchTarget))
      | .condJump => some ({ bb.push insn with
          jump := if insn.branchTarget ≠ 0 then insn.branchTarget else bb.jump,
          fail := insn.next }, b.record [insn] (.condJump insn.branchTarget insn.next))
      | .ret => some (bb.push insn, b.record [insn] .ret)
      | .call | .sequential =>
        traceLoop disasm reader start fuel insn.next (bb.push insn) (b.record [insn] .dead) := by
  rw [traceLoop, if_neg hfree]
  simp only [fetch] at hsome
  split at hsome
  · simp at hsome
  · next hlen =>
      split at hsome
      · simp at hsome
      · next other heq =>
          obtain rfl : other = insn := Option.some.inj hsome
          simp only [hlen, if_false, heq]
          by_cases htarget : other.branchTarget = 0#64 <;> cases hflow : other.flow <;>
            simp [Builder.record, Builder.pushXref, Builder.pushCallee, Builder.addLeader,
              Exit.newLeaders, callTargets, refs, direct, htarget, hflow, BasicBlock.push]

/-- **Induction along the loop**: how it may end, and how it goes on. -/
theorem traceLoop_induct {start : U64}
    {P : U64 → BasicBlock → Builder → BasicBlock × Builder → Prop}
    (known : ∀ pc bb b, pc ≠ start → pc ∈ b.leaders → P pc bb b ({ bb with fail := pc }, b))
    (dead : ∀ pc bb b, fetch disasm reader pc = none → P pc bb b (bb, b))
    (jump : ∀ pc bb b insn, ¬ (pc ≠ start ∧ pc ∈ b.leaders) → fetch disasm reader pc = some insn →
      insn.flow = .jump →
      P pc bb b ({ bb.push insn with
          jump := if insn.branchTarget ≠ 0 then insn.branchTarget else bb.jump },
        b.record [insn] (.jump insn.branchTarget)))
    (condJump : ∀ pc bb b insn, ¬ (pc ≠ start ∧ pc ∈ b.leaders) →
      fetch disasm reader pc = some insn → insn.flow = .condJump →
      P pc bb b ({ bb.push insn with
          jump := if insn.branchTarget ≠ 0 then insn.branchTarget else bb.jump
          fail := insn.next }, b.record [insn] (.condJump insn.branchTarget insn.next)))
    (ret : ∀ pc bb b insn, ¬ (pc ≠ start ∧ pc ∈ b.leaders) → fetch disasm reader pc = some insn →
      insn.flow = .ret → P pc bb b (bb.push insn, b.record [insn] .ret))
    (more : ∀ pc bb b insn r, ¬ (pc ≠ start ∧ pc ∈ b.leaders) →
      fetch disasm reader pc = some insn → FallsThrough insn →
      P insn.next (bb.push insn) (b.record [insn] .dead) r → P pc bb b r)
    {fuel : ℕ} {pc : U64} {bb : BasicBlock} {b : Builder} {r : BasicBlock × Builder}
    (h : traceLoop disasm reader start fuel pc bb b = some r) : P pc bb b r := by
  induction fuel generalizing pc bb b with
  | zero => cases h
  | succ fuel ih =>
      -- the checks of the loop in their order: a known leader, no instruction, its flow
      by_cases hstop : pc ≠ start ∧ pc ∈ b.leaders
      · rw [traceLoop, if_pos hstop] at h
        cases h
        exact known pc bb b hstop.1 hstop.2
      cases hfetch : fetch disasm reader pc with
      | none =>
          rw [traceLoop_of_fetch_none hstop hfetch] at h
          cases h
          exact dead pc bb b hfetch
      | some insn =>
          rw [traceLoop_of_fetch_some hstop hfetch] at h
          cases hflow : insn.flow with
          | sequential =>
              simp only [hflow] at h
              exact more pc bb b insn r hstop hfetch (Or.inl hflow) (ih h)
          | call =>
              simp only [hflow] at h
              exact more pc bb b insn r hstop hfetch (Or.inr hflow) (ih h)
          | jump =>
              simp only [hflow] at h
              cases h
              exact jump pc bb b insn hstop hfetch hflow
          | condJump =>
              simp only [hflow] at h
              cases h
              exact condJump pc bb b insn hstop hfetch hflow
          | ret =>
              simp only [hflow] at h
              cases h
              exact ret pc bb b insn hstop hfetch hflow

theorem blockOf_push (start : U64) (insns : List Instruction) (insn : Instruction) :
    (blockOf start insns .dead).push insn = blockOf start (insns ++ [insn]) .dead := by
  simp [blockOf, BasicBlock.push, sizeOf, Exit.jumpEdge, Exit.failEdge]

/-- What the loop returns, if it does, with the instructions `done` behind it. -/
theorem traceLoop_traced (hplaced : Placed (fetch disasm reader)) {start pc : U64} {fuel : ℕ}
    {bb : BasicBlock} {b : Builder} {r : BasicBlock × Builder}
    (h : traceLoop disasm reader start fuel pc bb b = some r) :
    ∀ done, bb = blockOf start done .dead → ∃ insns exit,
      Traced (fetch disasm reader) b.leaders start pc insns exit ∧
      r = (blockOf start (done ++ insns) exit, b.record insns exit) := by
  have hclear : ∀ {pc insn} {b : Builder}, ¬ (pc ≠ start ∧ pc ∈ b.leaders) →
      fetch disasm reader pc = some insn → insn.address ≠ start → insn.address ∉ b.leaders := by
    intro pc insn b hfree hfetch
    rw [hplaced.address_eq hfetch]
    exact fun hne hmem => hfree ⟨hne, hmem⟩
  -- `done` is what the loop has pushed so far, the chain is what is still to come
  refine traceLoop_induct (P := fun pc bb b r => ∀ done, bb = blockOf start done .dead →
    ∃ insns exit, Traced (fetch disasm reader) b.leaders start pc insns exit ∧
      r = (blockOf start (done ++ insns) exit, b.record insns exit))
    ?known ?dead ?jump ?condJump ?ret ?more h
  case known =>
    rintro pc _ b hne hmem done rfl
    refine ⟨[], .cut pc, ⟨.cut, by simp, ?_⟩, ?_⟩
    · rintro next hnext
      obtain rfl : pc = next := by simpa using hnext
      exact ⟨hmem, hne⟩
    · simp [blockOf, Builder.record, Exit.newLeaders, Exit.jumpEdge, Exit.failEdge]
  case dead =>
    rintro pc _ b hfetch done rfl
    refine ⟨[], .dead, ⟨.dead hfetch, by simp, by simp⟩, ?_⟩
    simp [Builder.record, Exit.newLeaders]
  case jump =>
    rintro pc _ b insn hfree hfetch hflow done rfl
    refine ⟨[insn], _, ⟨.jump hfetch hflow, by simpa using hclear hfree hfetch, by simp⟩, ?_⟩
    rw [blockOf_push]
    by_cases htarget : insn.branchTarget = 0#64 <;>
      simp [blockOf, Exit.jumpEdge, Exit.failEdge, htarget]
  case condJump =>
    rintro pc _ b insn hfree hfetch hflow done rfl
    refine ⟨[insn], _, ⟨.condJump hfetch hflow, by simpa using hclear hfree hfetch, by simp⟩, ?_⟩
    rw [blockOf_push]
    by_cases htarget : insn.branchTarget = 0#64 <;>
      simp [blockOf, Exit.jumpEdge, Exit.failEdge, htarget]
  case ret =>
    rintro pc _ b insn hfree hfetch hflow done rfl
    refine ⟨[insn], _, ⟨.ret hfetch hflow, by simpa using hclear hfree hfetch, by simp⟩, ?_⟩
    rw [blockOf_push]
    simp [blockOf, Exit.jumpEdge, Exit.failEdge]
  -- the instruction moves from the chain to the end of `done`
  case more =>
    rintro pc _ b insn r hfree hfetch hfalls ih done rfl
    obtain ⟨insns, exit, htraced, rfl⟩ := ih (done ++ [insn]) (blockOf_push start done insn)
    refine ⟨insn :: insns, exit, ⟨.more hfetch hfalls htraced.chain, ?_, htraced.cut_mem⟩, ?_⟩
    · rw [List.forall_mem_cons]
      exact ⟨hclear hfree hfetch, htraced.clear⟩
    · rw [← Builder.record_cons insn, List.append_assoc]
      rfl

theorem traceLoop_ends_of_wellPlaced (hplaced : WellPlaced (fetch disasm reader)) {start : U64}
    {fuel : ℕ} :
    ∀ (pc : U64) (bb : BasicBlock) (b : Builder), 2 ^ 64 < fuel + pc.toNat →
      ∃ r, traceLoop disasm reader start fuel pc bb b = some r := by
  induction fuel with
  | zero =>
      intro pc bb b hfuel
      have := pc.isLt
      omega
  | succ fuel ih =>
      intro pc bb b hfuel
      by_cases hstop : pc ≠ start ∧ pc ∈ b.leaders
      · exact ⟨_, by rw [traceLoop, if_pos hstop]⟩
      cases hfetch : fetch disasm reader pc with
      | none => exact ⟨_, traceLoop_of_fetch_none hstop hfetch⟩
      | some insn =>
          have hnext := Instruction.toNat_next (hplaced.end_lt hfetch)
          have hpos := hplaced.length_pos hfetch
          rw [hplaced.address_eq hfetch] at hnext
          rw [traceLoop_of_fetch_some hstop hfetch]
          cases hflow : insn.flow
          case sequential | call => exact ih _ _ _ (by omega)
          all_goals exact ⟨_, rfl⟩

/-- **What `trace_block` returns**, if it does. -/
theorem traceBlock_traced (hplaced : Placed (fetch disasm reader)) {fuel : ℕ} {start : U64}
    {b : Builder} {r : BasicBlock × Builder}
    (h : traceBlock disasm reader fuel start b = some r) : ∃ insns exit,
      Traced (fetch disasm reader) b.leaders start start insns exit ∧
      r = (blockOf start insns exit, b.record insns exit) :=
  traceLoop_traced hplaced h [] rfl

/-- **What `trace_block` does.** -/
theorem traceBlock_spec (hplaced : WellPlaced (fetch disasm reader)) {fuel : ℕ}
    (hfuel : 2 ^ 64 < fuel) (start : U64) (b : Builder) : ∃ insns exit,
      Traced (fetch disasm reader) b.leaders start start insns exit ∧
      traceBlock disasm reader fuel start b =
        some (blockOf start insns exit, b.record insns exit) := by
  obtain ⟨r, hrun⟩ := traceLoop_ends_of_wellPlaced hplaced start { addr := start } b
    (show 2 ^ 64 < fuel + start.toNat by omega)
  obtain ⟨insns, exit, htraced, rfl⟩ := traceBlock_traced hplaced.toPlaced hrun
  exact ⟨insns, exit, htraced, hrun⟩

/-- **What a visit of `build` does**: nothing to a leader that owns a block, and otherwise its
block is traced. -/
theorem visitBlock_cases {fuel : ℕ} {start : U64} {b b' : Builder} {found : List U64}
    (h : visitBlock disasm reader fuel start b = some (b', found)) :
    (start ∈ b.blocks ∧ b' = b ∧ found = []) ∨
      ∃ bb traced, traceBlock disasm reader fuel start b = some (bb, traced) ∧
        b' = { traced with blocks := traced.blocks.insertIfNew bb.addr bb } ∧
        found = [bb.jump, bb.fail].filter (· ≠ 0) := by
  unfold visitBlock at h
  by_cases hstart : start ∈ b.blocks
  · rw [if_pos hstart] at h
    cases h
    exact Or.inl ⟨hstart, rfl, rfl⟩
  rw [if_neg hstart] at h
  cases htrace : traceBlock disasm reader fuel start b with
  | none => simp [htrace] at h
  | some r =>
      rw [htrace] at h
      cases h
      exact Or.inr ⟨r.1, r.2, rfl, rfl, rfl⟩

end Loop

end Irida.Analysis
