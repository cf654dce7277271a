import Irida.Analysis.Trace

/-!
# Block discovery

The worklist loop of `build`.  `Discovered` is its invariant: the addresses ever
queued are the known leaders, each of them is on the queue or owns a block, the
known leaders are leaders in the sense of `Leader`, and every block is that of a
chain whose exits are known leaders.

When the queue is empty the known leaders are all leaders and the chains of the
blocks cover every reachable instruction (`Discovered.exists_chain`): a chain
may be stopped only at a leader, and every leader owns a block.

The null address is an exception: it becomes a leader when a conditional jump ends
where the address space does, but it is never queued.  `NullSafe` says that no code
is lost with it.
-/

namespace Irida.Analysis

open Disasm

/-- The block stored for a leader: the block of a chain from it, which is cut, if
at all, at one of the leaders. -/
structure ChainBlock (fetch : U64 → Option Instruction) (leaders : Std.ExtTreeSet U64)
    (l : U64) (bb : BasicBlock) (insns : List Instruction) (exit : Exit) : Prop where
  eq : bb = blockOf l insns exit
  chain : Chain fetch l insns exit
  cut_mem : ∀ {next : U64}, exit = .cut next → next ∈ leaders ∧ insns ≠ []

/-- What the builder knows of a chain that it has traced. -/
structure Recorded (b : Builder) (insns : List Instruction) (exit : Exit) : Prop where
  leaders : ∀ l ∈ exit.newLeaders, l ∈ b.leaders
  callees : ∀ insn ∈ insns, ∀ c ∈ callTargets insn, c ∈ b.callees
  xrefs : ∀ insn ∈ insns, ∀ x ∈ refs insn, x ∈ b.xrefs

/-- The null address is no leader, or there is no code at it, or it is where the function starts. -/
def NullSafe (fetch : U64 → Option Instruction) (entry : U64) : Prop :=
  Leader fetch entry 0 → entry = 0 ∨ fetch 0 = none

/-- The invariant of the worklist loop of `build`. -/
structure Discovered (fetch : U64 → Option Instruction) (entry : U64) (old : List Xref)
    (s : Worklist.State U64 Builder) : Prop where
  queued_leader : ∀ l ∈ s.queued, l ∈ s.data.leaders
  leader_queued : ∀ l ∈ s.data.leaders, l ≠ 0 → l ∈ s.queued
  entry_queued : entry ∈ s.queued
  work_queued : ∀ l ∈ s.work, l ∈ s.queued
  covered : ∀ l ∈ s.queued, l ∈ s.work ∨ l ∈ s.data.blocks
  blocks_leader : ∀ l ∈ s.data.blocks, l ∈ s.data.leaders
  sound : ∀ l ∈ s.data.leaders, Leader fetch entry l
  traced : ∀ l bb, s.data.blocks[l]? = some bb → ∃ insns exit,
    ChainBlock fetch s.data.leaders l bb insns exit ∧ Recorded s.data insns exit
  callees_sound : ∀ c ∈ s.data.callees, ∃ a insn, Reached fetch entry a ∧
    fetch a = some insn ∧ c ∈ callTargets insn
  xrefs_sound : ∃ added, s.data.xrefs = old ++ added ∧ ∀ x ∈ added, ∃ a insn,
    Reached fetch entry a ∧ fetch a = some insn ∧ x ∈ refs insn

section Monotone

variable {fetch : U64 → Option Instruction} {b : Builder} {l : U64} {bb : BasicBlock}
  {insns : List Instruction} {exit : Exit}

theorem ChainBlock.mono {leaders larger : Std.ExtTreeSet U64}
    (h : ChainBlock fetch leaders l bb insns exit) (hle : ∀ l ∈ leaders, l ∈ larger) :
    ChainBlock fetch larger l bb insns exit :=
  ⟨h.eq, h.chain, fun hcut => ⟨hle _ (h.cut_mem hcut).1, (h.cut_mem hcut).2⟩⟩

theorem Traced.chainBlock {leaders : Std.ExtTreeSet U64} (h : Traced fetch leaders l l insns exit) :
    ChainBlock fetch leaders l (blockOf l insns exit) insns exit where
  eq := rfl
  chain := h.chain
  cut_mem hcut := by
    obtain ⟨hmem, hne⟩ := h.cut_mem hcut
    refine ⟨hmem, fun hnil => hne ?_⟩
    -- an empty chain would be cut at its own start
    have hchain := h.chain
    rw [hnil, hcut] at hchain
    cases hchain
    rfl

theorem Chain.found (h : Chain fetch l insns exit) (hplaced : Placed fetch) {entry : U64}
    (hl : (fetch l).isSome → Reached fetch entry l) {β : Type} {f : Instruction → List β} {x : β}
    (hx : x ∈ insns.flatMap f) :
    ∃ a insn, Reached fetch entry a ∧ fetch a = some insn ∧ x ∈ f insn := by
  obtain ⟨insn, hinsn, hx⟩ := List.mem_flatMap.mp hx
  exact ⟨_, insn, h.reached hplaced hl insn hinsn, h.fetch_eq hplaced insn hinsn, hx⟩

theorem Traced.edge_mem {leaders : Std.ExtTreeSet U64} (h : Traced fetch leaders l l insns exit)
    {a : U64} (ha : a ∈ [exit.jumpEdge, exit.failEdge].filter (· ≠ 0)) :
    a ∈ leaders ∨ a ∈ exit.newLeaders := by
  obtain ⟨-, hnew | hcut⟩ := Exit.mem_edges.mp ha
  · exact Or.inr hnew
  · exact Or.inl (h.cut_mem hcut).1

theorem Recorded.record (h : Recorded b insns exit) (insns' : List Instruction) (exit' : Exit) :
    Recorded (b.record insns' exit') insns exit where
  leaders l hl := Builder.mem_leaders_record.mpr (Or.inl (h.leaders l hl))
  callees insn hinsn c hc := List.mem_append_left _ (h.callees insn hinsn c hc)
  xrefs insn hinsn x hx := List.mem_append_left _ (h.xrefs insn hinsn x hx)

theorem Recorded.withBlocks (h : Recorded b insns exit)
    (blocks : Std.ExtTreeMap U64 BasicBlock) : Recorded { b with blocks := blocks } insns exit :=
  ⟨h.leaders, h.callees, h.xrefs⟩

theorem recorded_record (b : Builder) (insns : List Instruction) (exit : Exit) :
    Recorded (b.record insns exit) insns exit where
  leaders _ hl := Builder.mem_leaders_record.mpr (Or.inr hl)
  callees insn hinsn _ hc := List.mem_append_right _ (List.mem_flatMap.mpr ⟨insn, hinsn, hc⟩)
  xrefs insn hinsn _ hx := List.mem_append_right _ (List.mem_flatMap.mpr ⟨insn, hinsn, hx⟩)

end Monotone

/-- Where no instruction reaches the end of the address space, only the entry can be null. -/
theorem WellPlaced.entry_eq_zero {fetch : U64 → Option Instruction} (hplaced : WellPlaced fetch)
    {entry : U64} (h : Leader fetch entry 0) : entry = 0 := by
  generalize hzero : (0 : U64) = l at h
  cases h with
  | entry => rfl
  | target _ _ hbr => exact absurd hzero.symm hbr.2
  | next _ hinsn _ =>
      have hnext := Instruction.toNat_next (hplaced.end_lt hinsn)
      have hpos := hplaced.length_pos hinsn
      rw [← hzero] at hnext
      simp at hnext
      omega

theorem WellPlaced.nullSafe {fetch : U64 → Option Instruction} (hplaced : WellPlaced fetch)
    (entry : U64) : NullSafe fetch entry :=
  fun h => Or.inl (hplaced.entry_eq_zero h)

namespace Discovered

variable {disasm : Disassembler} {reader : ByteReader} {entry : U64} {old : List Xref}
  {s : Worklist.State U64 Builder}

theorem init (fetch : U64 → Option Instruction) (entry : U64) (old : List Xref) :
    Discovered fetch entry old
      ⟨[entry], {entry}, { leaders := (∅ : Std.ExtTreeSet U64).insert entry, xrefs := old }⟩ where
  queued_leader l hl := by simp [Finset.mem_singleton.mp hl]
  leader_queued l hl _ := by
    obtain rfl : entry = l := by simpa using hl
    exact Finset.mem_singleton_self entry
  entry_queued := Finset.mem_singleton_self entry
  work_queued l hl := by simpa using hl
  covered l hl := by simpa using hl
  blocks_leader l hl := by simp at hl
  sound l hl := by
    obtain rfl : entry = l := by simpa using hl
    exact .entry
  traced l bb hbb := by simp at hbb
  callees_sound c hc := by simp at hc
  xrefs_sound := ⟨[], by simp, by simp⟩

theorem skip {start : U64} {rest : List U64} (h : Discovered (fetch disasm reader) entry old s)
    (hwork : s.work = start :: rest) (hstart : start ∈ s.data.blocks) :
    Discovered (fetch disasm reader) entry old { s with work := rest } where
  queued_leader := h.queued_leader
  leader_queued := h.leader_queued
  entry_queued := h.entry_queued
  work_queued := Worklist.State.work_queued_step s.data [] hwork h.work_queued
  covered := Worklist.State.covered_step s.data [] hwork h.covered (fun _ => id) hstart
  blocks_leader := h.blocks_leader
  sound := h.sound
  traced := h.traced
  callees_sound := h.callees_sound
  xrefs_sound := h.xrefs_sound

/-- Popping a leader and tracing its block. -/
theorem trace (hplaced : Placed (fetch disasm reader)) {start : U64} {rest : List U64}
    {insns : List Instruction} {exit : Exit}
    (h : Discovered (fetch disasm reader) entry old s) (hwork : s.work = start :: rest)
    (htraced : Traced (fetch disasm reader) s.data.leaders start start insns exit) :
    Discovered (fetch disasm reader) entry old
      (Worklist.State.enqueueAll
        { s with
          work := rest
          data := { s.data.record insns exit with
            blocks := s.data.blocks.insertIfNew start (blockOf start insns exit) } }
        ([exit.jumpEdge, exit.failEdge].filter (· ≠ 0))) := by
  have hstart : start ∈ s.data.leaders :=
    h.queued_leader start (h.work_queued start (Worklist.State.head_mem_work hwork))
  have hleader : Leader (fetch disasm reader) entry start := h.sound start hstart
  have hfound : ∀ {β : Type} {f : Instruction → List β} {x : β}, x ∈ insns.flatMap f →
      ∃ a insn, Reached (fetch disasm reader) entry a ∧ fetch disasm reader a = some insn ∧
        x ∈ f insn := htraced.chain.found hplaced hleader.reached
  have hnew := htraced.chain.leader_of_mem_newLeaders hleader.reached
  have hgrow : ∀ l ∈ s.data.leaders, l ∈ (s.data.record insns exit).leaders :=
    fun l hl => Builder.mem_leaders_record.mpr (Or.inl hl)
  constructor
  -- what is enqueued is an edge of the block, and so a leader that the chain registers or is cut at
  case queued_leader =>
    intro l hl
    rw [Worklist.State.data_enqueueAll]
    show l ∈ (s.data.record insns exit).leaders
    rw [Builder.mem_leaders_record]
    rcases Worklist.State.mem_queued_enqueueAll.mp hl with hl | hl
    · exact Or.inl (h.queued_leader l hl)
    · exact htraced.edge_mem hl
  case leader_queued =>
    intro l hl hne
    rw [Worklist.State.data_enqueueAll] at hl
    have hl : l ∈ (s.data.record insns exit).leaders := hl
    rw [Worklist.State.mem_queued_enqueueAll]
    rcases Builder.mem_leaders_record.mp hl with hl | hl
    · exact Or.inl (h.leader_queued l hl hne)
    · exact Or.inr (Exit.mem_edges.mpr ⟨hne, Or.inl hl⟩)
  case entry_queued =>
    exact Worklist.State.mem_queued_enqueueAll.mpr (Or.inl h.entry_queued)
  case work_queued => exact Worklist.State.work_queued_step _ _ hwork h.work_queued
  case covered =>
    rw [Worklist.State.data_enqueueAll]
    refine Worklist.State.covered_step _ _ hwork h.covered (fun l hl => ?_) ?_
    · exact Std.ExtTreeMap.mem_insertIfNew.mpr (Or.inr hl)
    · exact Std.ExtTreeMap.mem_insertIfNew.mpr (Or.inl Std.ReflCmp.compare_self)
  case blocks_leader =>
    intro l hl
    rw [Worklist.State.data_enqueueAll] at hl ⊢
    rw [Std.ExtTreeMap.mem_insertIfNew, Std.compare_eq_iff_eq] at hl
    rcases hl with rfl | hl
    · exact hgrow _ hstart
    · exact hgrow _ (h.blocks_leader l hl)
  -- the leaders that the chain registers are targets or successors of reachable instructions
  case sound =>
    intro l hl
    rw [Worklist.State.data_enqueueAll] at hl
    have hl : l ∈ (s.data.record insns exit).leaders := hl
    rcases Builder.mem_leaders_record.mp hl with hl | hl
    · exact h.sound l hl
    · exact hnew l hl
  -- the block at `start` is the one traced now, the others keep their chains: there are only more
  -- leaders
  case traced =>
    intro l bb hbb
    rw [Worklist.State.data_enqueueAll] at hbb ⊢
    rw [Std.ExtTreeMap.getElem?_insertIfNew] at hbb
    split at hbb
    · next heq =>
        obtain rfl := Std.compare_eq_iff_eq.mp heq.1
        cases hbb
        exact ⟨insns, exit, htraced.chainBlock.mono hgrow, (recorded_record _ _ _).withBlocks _⟩
    · obtain ⟨insns', exit', hblock, hrec⟩ := h.traced l bb hbb
      exact ⟨insns', exit', hblock.mono hgrow, (hrec.record insns exit).withBlocks _⟩
  case callees_sound =>
    intro c hc
    rw [Worklist.State.data_enqueueAll] at hc
    rcases List.mem_append.mp hc with hc | hc
    · exact h.callees_sound c hc
    · exact hfound hc
  case xrefs_sound =>
    obtain ⟨added, hadded, hsound⟩ := h.xrefs_sound
    refine ⟨added ++ insns.flatMap refs, ?_, fun x hx => ?_⟩
    · rw [Worklist.State.data_enqueueAll, ← List.append_assoc, ← hadded]
      rfl
    rcases List.mem_append.mp hx with hx | hx
    · exact hsound x hx
    · exact hfound hx

theorem visit (hplaced : Placed (fetch disasm reader)) {fuel : ℕ} {start : U64}
    {rest found : List U64} {b : Builder} (h : Discovered (fetch disasm reader) entry old s)
    (hwork : s.work = start :: rest)
    (hvisit : visitBlock disasm reader fuel start s.data = some (b, found)) :
    Discovered (fetch disasm reader) entry old
      (Worklist.State.enqueueAll { s with work := rest, data := b } found) := by
  rcases visitBlock_cases hvisit with ⟨hstart, rfl, rfl⟩ | ⟨bb, traced, htrace, rfl, rfl⟩
  · exact h.skip hwork hstart
  · obtain ⟨insns, exit, htraced, hr⟩ := traceBlock_traced hplaced htrace
    obtain ⟨rfl, rfl⟩ := Prod.mk.inj hr
    exact h.trace hplaced hwork htraced

theorem step (hplaced : WellPlaced (fetch disasm reader)) {fuel : ℕ} (hfuel : 2 ^ 64 < fuel)
    {start : U64} {rest : List U64} (h : Discovered (fetch disasm reader) entry old s)
    (hwork : s.work = start :: rest) :
    ∃ b found, visitBlock disasm reader fuel start s.data = some (b, found) ∧
      Discovered (fetch disasm reader) entry old
        (Worklist.State.enqueueAll { s with work := rest, data := b } found) := by
  have hvisits : ∃ r, visitBlock disasm reader fuel start s.data = some r := by
    unfold visitBlock
    split
    · exact ⟨_, rfl⟩
    · obtain ⟨insns, exit, -, hrun⟩ := traceBlock_spec hplaced hfuel start s.data
      rw [hrun]
      exact ⟨_, rfl⟩
  obtain ⟨⟨b, found⟩, hvisit⟩ := hvisits
  exact ⟨b, found, hvisit, h.visit hplaced.toPlaced hwork hvisit⟩

/-! ## When the queue is empty -/

section Finished

variable {fetch : U64 → Option Instruction}

theorem entry_mem (h : Discovered fetch entry old s) : entry ∈ s.data.leaders :=
  h.queued_leader entry h.entry_queued

theorem queued_iff (hplaced : WellPlaced fetch) (h : Discovered fetch entry old s) (l : U64) :
    l ∈ s.queued ↔ l ∈ s.data.leaders := by
  refine ⟨h.queued_leader l, fun hl => ?_⟩
  by_cases hzero : l = 0
  · subst hzero
    obtain rfl := hplaced.entry_eq_zero (h.sound 0 hl)
    exact h.entry_queued
  · exact h.leader_queued l hl hzero

theorem mem_blocks_of_queued (h : Discovered fetch entry old s) (hdone : s.work = []) {l : U64}
    (hl : l ∈ s.queued) : l ∈ s.data.blocks := by
  have hcov := h.covered l hl
  rw [hdone] at hcov
  exact hcov.resolve_left List.not_mem_nil

theorem mem_blocks_iff (hplaced : WellPlaced fetch) (h : Discovered fetch entry old s)
    (hdone : s.work = []) {l : U64} : l ∈ s.data.blocks ↔ l ∈ s.data.leaders :=
  ⟨h.blocks_leader l, fun hl => h.mem_blocks_of_queued hdone ((h.queued_iff hplaced l).mpr hl)⟩

theorem mem_blocks_of_leader (hnull : NullSafe fetch entry) (h : Discovered fetch entry old s)
    (hdone : s.work = []) {l : U64} (hl : l ∈ s.data.leaders) (hdec : (fetch l).isSome) :
    l ∈ s.data.blocks := by
  by_cases hzero : l = 0
  · subst hzero
    rcases hnull (h.sound 0 hl) with rfl | hnone
    · exact h.mem_blocks_of_queued hdone h.entry_queued
    · rw [hnone] at hdec
      cases hdec
  · exact h.mem_blocks_of_queued hdone (h.leader_queued l hl hzero)

theorem exists_chain_of_leader (hplaced : Placed fetch) (hnull : NullSafe fetch entry)
    (h : Discovered fetch entry old s) (hdone : s.work = []) {l : U64} (hl : l ∈ s.data.leaders)
    (hdec : (fetch l).isSome) :
    ∃ start insns exit insn, Chain fetch start insns exit ∧ Recorded s.data insns exit ∧
      (∀ {next}, exit = .cut next → next ∈ s.data.leaders) ∧ insn ∈ insns ∧
      insn.address = l := by
  have hmem := h.mem_blocks_of_leader hnull hdone hl hdec
  obtain ⟨insns, exit, hblock, hrec⟩ := h.traced l _ (Std.ExtTreeMap.getElem?_eq_some_getElem hmem)
  obtain ⟨insn, hinsn, haddr⟩ :=
    hblock.chain.exists_head hplaced hdec fun hcut => (hblock.cut_mem hcut).2
  exact ⟨l, _, exit, insn, hblock.chain, hrec, fun hcut => (hblock.cut_mem hcut).1, hinsn, haddr⟩

/-- Every reachable instruction lies in the chain of some block. -/
theorem exists_chain (hplaced : Placed fetch) (hnull : NullSafe fetch entry)
    (h : Discovered fetch entry old s) (hdone : s.work = []) {a : U64}
    (ha : Reached fetch entry a) :
    ∃ start insns exit insn, Chain fetch start insns exit ∧ Recorded s.data insns exit ∧
      (∀ {next}, exit = .cut next → next ∈ s.data.leaders) ∧ insn ∈ insns ∧
      insn.address = a := by
  induction ha with
  | entry hdec => exact h.exists_chain_of_leader hplaced hnull hdone h.entry_mem hdec
  | @succ a b _ hsucc hdec ih =>
      obtain ⟨start, insns, exit, insn, hchain, hrec, hcut, hinsn, rfl⟩ := ih
      rcases hchain.succ_mem hplaced hinsn hsucc with ⟨other, hother, haddr⟩ | hl | hl | hnone
      · exact ⟨start, insns, exit, other, hchain, hrec, hcut, hother, haddr⟩
      · exact h.exists_chain_of_leader hplaced hnull hdone (hrec.leaders b hl) hdec
      · exact h.exists_chain_of_leader hplaced hnull hdone (hcut hl) hdec
      · simp [hnone] at hdec

/-- The known leaders are exactly the leaders. -/
theorem mem_leaders_iff (hplaced : Placed fetch) (hnull : NullSafe fetch entry)
    (h : Discovered fetch entry old s) (hdone : s.work = []) {l : U64} :
    l ∈ s.data.leaders ↔ Leader fetch entry l := by
  refine ⟨h.sound l, fun hl => ?_⟩
  have hsucc : ∀ {a b insn}, Reached fetch entry a → fetch a = some insn → ¬ FallsThrough insn →
      Succ fetch a b → b ∈ s.data.leaders := by
    intro a b insn ha hfetch hends hab
    obtain ⟨start, insns, exit, other, hchain, hrec, -, hother, rfl⟩ :=
      h.exists_chain hplaced hnull hdone ha
    obtain rfl := Option.some.inj ((hchain.fetch_eq hplaced other hother).symm.trans hfetch)
    exact hrec.leaders b (hchain.mem_newLeaders hplaced hother hends hab)
  cases hl with
  | entry => exact h.entry_mem
  | target ha hinsn hbr =>
      refine hsucc ha hinsn ?_ (.target hinsn hbr)
      rcases hbr.1 with hflow | hflow <;> simp [FallsThrough, hflow]
  | next ha hinsn hflow =>
      exact hsucc ha hinsn (by simp [FallsThrough, hflow]) (.next hinsn (Or.inr hflow))

theorem mem_callees_iff (hplaced : Placed fetch) (hnull : NullSafe fetch entry)
    (h : Discovered fetch entry old s) (hdone : s.work = []) {c : U64} : c ∈ s.data.callees ↔
      ∃ a insn, Reached fetch entry a ∧ fetch a = some insn ∧ c ∈ callTargets insn := by
  refine ⟨h.callees_sound c, ?_⟩
  rintro ⟨a, insn, ha, hinsn, hc⟩
  obtain ⟨start, insns, exit, other, hchain, hrec, -, hother, rfl⟩ :=
    h.exists_chain hplaced hnull hdone ha
  obtain rfl := Option.some.inj ((hchain.fetch_eq hplaced other hother).symm.trans hinsn)
  exact hrec.callees other hother c hc

theorem mem_xrefs_iff (hplaced : Placed fetch) (hnull : NullSafe fetch entry)
    (h : Discovered fetch entry [] s) (hdone : s.work = []) {x : Xref} : x ∈ s.data.xrefs ↔
      ∃ a insn, Reached fetch entry a ∧ fetch a = some insn ∧ x ∈ refs insn := by
  constructor
  · obtain ⟨added, hadded, hsound⟩ := h.xrefs_sound
    rw [hadded]
    exact hsound x
  · rintro ⟨a, insn, ha, hinsn, hx⟩
    obtain ⟨start, insns, exit, other, hchain, hrec, -, hother, rfl⟩ :=
      h.exists_chain hplaced hnull hdone ha
    obtain rfl := Option.some.inj ((hchain.fetch_eq hplaced other hother).symm.trans hinsn)
    exact hrec.xrefs other hother x hx

end Finished

end Discovered

/-- **Block discovery ends**, and with the invariant. -/
theorem run_visitBlock_spec {disasm : Disassembler} {reader : ByteReader} (entry : U64)
    (old : List Xref) (hplaced : WellPlaced (fetch disasm reader)) {fuel : ℕ}
    (hfuel : 2 ^ 64 < fuel) : ∃ s, Worklist.run (visitBlock disasm reader fuel) fuel
        ⟨[entry], {entry}, { leaders := (∅ : Std.ExtTreeSet U64).insert entry, xrefs := old }⟩ =
          some s.data ∧
      Discovered (fetch disasm reader) entry old s ∧ s.work = [] := by
  refine Worklist.run_spec (Discovered (fetch disasm reader) entry old)
    (fun s start rest h hwork => h.step hplaced hfuel hwork)
    (Discovered.init _ entry old) ?_
  simp only [Worklist.State.potential, List.length_singleton, Finset.card_singleton, card_u64]
  omega

end Irida.Analysis
