import Irida.Analysis.References
import Mathlib.Logic.Relation

/-!
# The order of discovery

In which order the leaders of a function are found, and what is traced from each,
follows from the code alone: `Explores` is one step of that search, first
found first traced, and `Explored` are the states that it goes through.
`build` takes these steps (`run_visitBlock_explored`), and `Explored.eq_of_work` says that
no leader is traced in two ways.

A run is traced up to the first leader that is known at the time, so that it goes on
through a leader that is found later, and what lies behind that one is traced again.
`mem_iff_of_barrier` says which instructions a run goes through in these terms.
-/

namespace Irida.Analysis

open Disasm

/-! ## Falling through -/

/-- Decoding goes on from one address to another, through any number of instructions. -/
abbrev FallsTo (fetch : U64 → Option Instruction) : U64 → U64 → Prop :=
  Relation.ReflTransGen (FallsInto fetch)

/-- An address lies on the way from `l` to `i`, behind `l`. -/
structure OnWay (fetch : U64 → Option Instruction) (l k i : U64) : Prop where
  ne : k ≠ l
  enter : FallsTo fetch l k
  leave : FallsTo fetch k i

section Falls

variable {fetch : U64 → Option Instruction}

theorem fallsInto_rightUnique : Relator.RightUnique (FallsInto fetch) := by
  rintro a b c ⟨insn, hinsn, -, rfl⟩ ⟨insn', hinsn', -, rfl⟩
  rw [Option.some.inj (hinsn.symm.trans hinsn')]

theorem FallsInto.lt (hplaced : WellPlaced fetch) {a b : U64} (h : FallsInto fetch a b) :
    a.toNat < b.toNat := by
  obtain ⟨insn, hinsn, -, rfl⟩ := h
  have hnext := Instruction.toNat_next (hplaced.end_lt hinsn)
  have hpos := hplaced.length_pos hinsn
  rw [hplaced.address_eq hinsn] at hnext
  omega

theorem fallsTo_le (hplaced : WellPlaced fetch) {a b : U64} (h : FallsTo fetch a b) :
    a.toNat ≤ b.toNat := by
  induction h with
  | refl => exact le_refl _
  | tail _ hstep ih => exact ih.trans (hstep.lt hplaced).le

theorem fallsTo_antisymm (hplaced : WellPlaced fetch) {a b : U64} (hab : FallsTo fetch a b)
    (hba : FallsTo fetch b a) : a = b :=
  BitVec.eq_of_toNat_eq (le_antisymm (fallsTo_le hplaced hab) (fallsTo_le hplaced hba))

theorem eq_of_fallsTo {a b : U64} {insn : Instruction} (hinsn : fetch a = some insn)
    (hends : ¬ FallsThrough insn) (h : FallsTo fetch a b) : b = a := by
  rcases h.cases_head with heq | ⟨c, ⟨other, hother, hfalls, -⟩, -⟩
  · exact heq.symm
  · rw [Option.some.inj (hother.symm.trans hinsn)] at hfalls
    exact absurd hfalls hends

/-- A chain of one instruction that does not fall through ends at it. -/
theorem mem_singleton_iff_of_barrier {barrier : U64 → Prop} (hplaced : WellPlaced fetch) {a i : U64}
    {first insn : Instruction} (hinsn : fetch i = some insn) (hfirst : fetch a = some first)
    (hends : ¬ FallsThrough first) (hfree : ∀ insn ∈ [first], ¬ barrier insn.address) :
    insn ∈ [first] ↔ FallsTo fetch a i ∧
      ∀ k, barrier k → FallsTo fetch a k → ¬ FallsTo fetch k i := by
  have hbarrier := hfree first (List.mem_singleton_self first)
  rw [hplaced.address_eq hfirst] at hbarrier
  rw [List.mem_singleton]
  constructor
  · rintro rfl
    obtain rfl : i = a := (hplaced.address_eq hinsn).symm.trans (hplaced.address_eq hfirst)
    refine ⟨.refl, fun k hk hik _ => hbarrier ?_⟩
    rwa [← eq_of_fallsTo hfirst hends hik]
  · rintro ⟨hfalls, -⟩
    obtain rfl := eq_of_fallsTo hfirst hends hfalls
    exact Option.some.inj (hinsn.symm.trans hfirst)

/-- **Which instructions a chain goes through** that only barriers cut: those that
can be reached without crossing a barrier. -/
theorem Chain.mem_iff_of_barrier {barrier : U64 → Prop} (hplaced : WellPlaced fetch) {a : U64}
    {insns : List Instruction} {exit : Exit} (h : Chain fetch a insns exit)
    (hfree : ∀ insn ∈ insns, ¬ barrier insn.address)
    (hcut : ∀ {next}, exit = .cut next → barrier next) {i : U64} {insn : Instruction}
    (hinsn : fetch i = some insn) :
    insn ∈ insns ↔ FallsTo fetch a i ∧
      ∀ k, barrier k → FallsTo fetch a k → ¬ FallsTo fetch k i := by
  -- along the chain: its first instruction is at the start, the others are those of the rest
  induction h with
  | @dead a hnone =>
      refine iff_of_false List.not_mem_nil fun ⟨hfalls, _⟩ => ?_
      rcases hfalls.cases_head with rfl | ⟨c, ⟨other, hother, -, -⟩, -⟩
      · rw [hnone] at hinsn
        cases hinsn
      · rw [hnone] at hother
        cases hother
  | @cut a =>
      exact iff_of_false List.not_mem_nil fun ⟨hfalls, hclear⟩ =>
        hclear a (hcut rfl) .refl hfalls
  | jump hfirst hflow | condJump hfirst hflow | ret hfirst hflow =>
      refine mem_singleton_iff_of_barrier hplaced hinsn hfirst ?_ hfree
      simp [FallsThrough, hflow]
  | @more a first insns exit hfirst hfalls hrest ih =>
      rw [List.forall_mem_cons] at hfree
      have hstep : FallsInto fetch a first.next := ⟨first, hfirst, hfalls, rfl⟩
      have hbarrier := hfree.1
      rw [hplaced.address_eq hfirst] at hbarrier
      have hmem : insn ∈ insns ↔ _ := ih hfree.2 hcut
      rw [List.mem_cons, hmem]
      constructor
      -- a barrier between the start and itself would be at the start
      · rintro (rfl | ⟨hreach, hclear⟩)
        · obtain rfl : i = a := (hplaced.address_eq hinsn).symm.trans (hplaced.address_eq hfirst)
          refine ⟨.refl, fun k hk hik hki => hbarrier ?_⟩
          rwa [fallsTo_antisymm hplaced hik hki]
        · refine ⟨.head hstep hreach, fun k hk hak => ?_⟩
          rcases hak.cases_head with rfl | ⟨c, hstep', hck⟩
          · exact absurd hk hbarrier
          · obtain rfl := fallsInto_rightUnique hstep hstep'
            exact hclear k hk hck
      · rintro ⟨hreach, hclear⟩
        rcases hreach.cases_head with rfl | ⟨c, hstep', hci⟩
        · exact Or.inl (Option.some.inj (hinsn.symm.trans hfirst))
        · obtain rfl := fallsInto_rightUnique hstep hstep'
          exact Or.inr ⟨hci, fun k hk hck => hclear k hk (.head hstep hck)⟩

end Falls

/-! ## The search for leaders -/

/-- What is traced from a leader while some leaders are known. -/
structure RunFrom (fetch : U64 → Option Instruction) (known : Finset U64) (l : U64)
    (insns : List Instruction) (exit : Exit) : Prop where
  chain : Chain fetch l insns exit
  clear : ∀ insn ∈ insns, insn.address ≠ l → insn.address ∉ known
  cut_mem : ∀ {next : U64}, exit = .cut next → next ∈ known ∧ next ≠ l

/-- The leaders on the queue, those that are known, and what was traced from each. -/
abbrev Search := Worklist.State U64 (List (U64 × List Instruction))

/-- One step of the search: the first leader on the queue is traced, and the leaders at the end
of its run are put on the queue. -/
inductive Explores (fetch : U64 → Option Instruction) : Search → Search → Prop
  | trace {s : Search} {l : U64} {rest : List U64} {insns : List Instruction} {exit : Exit} :
      s.work = l :: rest → RunFrom fetch s.queued l insns exit →
      Explores fetch s (Worklist.State.enqueueAll
        { s with work := rest, data := s.data ++ [(l, insns)] }
        ([exit.jumpEdge, exit.failEdge].filter (· ≠ 0)))

/-- The states that the search for the leaders of a function goes through. -/
def Explored (fetch : U64 → Option Instruction) (entry : U64) (s : Search) : Prop :=
  Relation.ReflTransGen (Explores fetch) ⟨[entry], {entry}, []⟩ s

section Search

variable {fetch : U64 → Option Instruction} {entry : U64} {s : Search}

theorem RunFrom.notMem {known : Finset U64} {l : U64} {insns : List Instruction} {exit : Exit}
    (h : RunFrom fetch known l insns exit) :
    ∀ insn ∈ insns, ¬ (insn.address ∈ known ∧ insn.address ≠ l) :=
  fun insn hinsn hk => h.clear insn hinsn hk.2 hk.1

/-- A run goes through the instructions that can be reached without crossing a known leader. -/
theorem RunFrom.mem_iff (hplaced : WellPlaced fetch) {known : Finset U64} {l : U64}
    {insns : List Instruction} {exit : Exit} (h : RunFrom fetch known l insns exit) {i : U64}
    {insn : Instruction} (hinsn : fetch i = some insn) :
    insn ∈ insns ↔ FallsTo fetch l i ∧ ∀ k ∈ known, ¬ OnWay fetch l k i := by
  rw [@Chain.mem_iff_of_barrier fetch (fun k => k ∈ known ∧ k ≠ l) hplaced l insns exit h.chain
    h.notMem h.cut_mem i insn hinsn]
  exact and_congr_right fun _ =>
    ⟨fun hclear k hk hway => hclear k ⟨hk, hway.ne⟩ hway.enter hway.leave,
      fun hclear k hk henter hleave => hclear k hk.1 ⟨hk.2, henter, hleave⟩⟩

/-- Two ends of one chain differ only in whether it is said to be cut there. -/
theorem Chain.exit_cases {a : U64} {insns : List Instruction} {exit exit' : Exit}
    (h : Chain fetch a insns exit) (h' : Chain fetch a insns exit') :
    exit = exit' ∨ (exit = .dead ∨ ∃ next, exit = .cut next) ∧
      (exit' = .dead ∨ ∃ next, exit' = .cut next) := by
  induction h with
  | dead _ =>
      cases h' with
      | dead _ => exact Or.inl rfl
      | cut => exact Or.inr ⟨Or.inl rfl, Or.inr ⟨_, rfl⟩⟩
  | cut =>
      cases h' with
      | dead _ => exact Or.inr ⟨Or.inr ⟨_, rfl⟩, Or.inl rfl⟩
      | cut => exact Or.inl rfl
  | jump _ hflow | condJump _ hflow | ret _ hflow =>
      cases h' with
      | jump _ hflow' | condJump _ hflow' | ret _ hflow' => simp_all
      | more _ hfalls _ => simp [FallsThrough, hflow] at hfalls
  | more _ hfalls _ ih =>
      cases h' with
      | jump _ hflow | condJump _ hflow | ret _ hflow => simp [FallsThrough, hflow] at hfalls
      | more _ _ hrest => exact ih hrest

/-- The search is determined by the code. -/
theorem explores_rightUnique (hplaced : WellPlaced fetch) :
    Relator.RightUnique (Explores fetch) := by
  rintro s _ _ ⟨hwork, hrun⟩ ⟨hwork', hrun'⟩
  rename_i l rest insns exit l' rest' insns' exit'
  obtain ⟨rfl, rfl⟩ : l = l' ∧ rest = rest' := by
    rw [hwork] at hwork'
    exact List.cons.inj hwork'
  obtain rfl : insns = insns' :=
    hrun.chain.eq_of_barrier hplaced.toPlaced hrun'.chain hrun.notMem hrun'.notMem hrun.cut_mem
      hrun'.cut_mem
  -- a run that stops where nothing decodes may also be said to be cut there
  have hstay : ∀ {exit : Exit}, RunFrom fetch s.queued l insns exit →
      (exit = .dead ∨ ∃ next, exit = .cut next) →
      ({ s with work := rest, data := s.data ++ [(l, insns)] } : Search).enqueueAll
        ([exit.jumpEdge, exit.failEdge].filter (· ≠ 0)) =
      { s with work := rest, data := s.data ++ [(l, insns)] } := by
    intro exit hrun hexit
    refine Worklist.State.enqueueAll_eq_self fun x hx => ?_
    rcases hexit with rfl | ⟨next, rfl⟩
    · simp [Exit.jumpEdge, Exit.failEdge] at hx
    · obtain ⟨-, hnew | hcut⟩ := Exit.mem_edges.mp hx
      · simp [Exit.newLeaders] at hnew
      · exact (hrun.cut_mem hcut).1
  rcases hrun.chain.exit_cases hrun'.chain with rfl | ⟨hexit, hexit'⟩
  · rfl
  · rw [hstay hrun hexit, hstay hrun' hexit']

/-- Every known leader is on the queue or was traced, and none twice. -/
theorem Explored.exact (h : Explored fetch entry s) : s.Exact (s.data.map Prod.fst) := by
  induction h with
  | refl => exact ⟨List.nodup_singleton entry, fun y => by simp⟩
  | @tail s _ _ hstep ih =>
      cases hstep with
      | @trace l rest insns exit hwork _ =>
          have hpop := (ih.pop hwork (s.data ++ [(l, insns)])).enqueueAll
            ([exit.jumpEdge, exit.failEdge].filter (· ≠ 0))
          rw [Worklist.State.data_enqueueAll, List.map_append]
          exact hpop

theorem Explored.exists_run (h : Explored fetch entry s) : ∀ p ∈ s.data, ∃ s' rest exit,
    Explored fetch entry s' ∧ s'.work = p.1 :: rest ∧ RunFrom fetch s'.queued p.1 p.2 exit := by
  induction h with
  | refl => exact fun p hp => absurd hp List.not_mem_nil
  | @tail s _ hs hstep ih =>
      cases hstep with
      | @trace l rest insns exit hwork hrun =>
          intro p hp
          rw [Worklist.State.data_enqueueAll] at hp
          rcases List.mem_append.mp hp with hp | hp
          · exact ih p hp
          · obtain rfl := List.mem_singleton.mp hp
            exact ⟨s, rest, exit, hs, hwork, hrun⟩

theorem Explored.leader (h : Explored fetch entry s) : ∀ k ∈ s.queued, Leader fetch entry k := by
  induction h with
  | refl =>
      intro k hk
      rw [Finset.mem_singleton.mp hk]
      exact .entry
  | @tail s _ hs hstep ih =>
      cases hstep with
      | @trace l rest insns exit hwork hrun =>
          intro k hk
          rcases Worklist.State.mem_queued_enqueueAll.mp hk with hk | hk
          · exact ih k hk
          · have hl : l ∈ s.queued := (Explored.exact hs).mem_queued_of_work hwork
            obtain ⟨-, hnew | hcut⟩ := Exit.mem_edges.mp hk
            · exact hrun.chain.leader_of_mem_newLeaders (ih l hl).reached k hnew
            · exact ih k (hrun.cut_mem hcut).1

theorem mem_data_of_explores {s' : Search} (h : Relation.ReflTransGen (Explores fetch) s s')
    {p : U64 × List Instruction} (hp : p ∈ s.data) : p ∈ s'.data := by
  induction h with
  | refl => exact hp
  | tail _ hstep ih =>
      cases hstep with
      | trace _ _ =>
          rw [Worklist.State.data_enqueueAll]
          exact List.mem_append_left _ ih

/-- **A leader is traced in one state of the search only.** -/
theorem Explored.eq_of_work (hplaced : WellPlaced fetch) {s' : Search}
    (h : Explored fetch entry s) (h' : Explored fetch entry s') {l : U64} {rest rest' : List U64}
    (hwork : s.work = l :: rest) (hwork' : s'.work = l :: rest') : s = s' := by
  -- a state beyond the one that traces the leader has it in the log, not on the queue
  have hsame : ∀ {s s' : Search} {rest rest' : List U64}, Explored fetch entry s' →
      Relation.ReflTransGen (Explores fetch) s s' → s.work = l :: rest → s'.work = l :: rest' →
      s = s' := by
    intro s s' rest rest' hs' hpath hwork hwork'
    rcases hpath.cases_head with heq | ⟨t, hstep, hpath⟩
    · exact heq
    · exfalso
      have hlog : ∃ insns, (l, insns) ∈ t.data := by
        cases hstep with
        | @trace l' _ insns exit hother _ =>
            obtain rfl : l = l' := (List.cons.inj (hwork.symm.trans hother)).1
            rw [Worklist.State.data_enqueueAll]
            exact ⟨insns, List.mem_append_right _ (List.mem_singleton_self _)⟩
      obtain ⟨insns, hlog⟩ := hlog
      have hdone : l ∈ s'.data.map Prod.fst :=
        List.mem_map_of_mem (f := Prod.fst) (mem_data_of_explores hpath hlog)
      exact hs'.exact.notMem_done hwork' hdone
  rcases Relation.ReflTransGen.total_of_right_unique (explores_rightUnique hplaced) h h' with
    hpath | hpath
  · exact hsame h' hpath hwork hwork'
  · exact (hsame h hpath hwork' hwork).symm

/-! ## What is traced twice -/

theorem nodup_refs (insn : Instruction) : (refs insn).Nodup := by
  by_cases htarget : insn.branchTarget = 0#64 <;> cases hflow : insn.flow <;>
    simp [refs, direct, htarget, hflow]

theorem pairwise_disjoint_iff_forall_ne {α β : Type*} {l : List α} (hnodup : l.Nodup)
    (f : α → List β) :
    l.Pairwise (Function.onFun List.Disjoint f) ↔
      ∀ a ∈ l, ∀ b ∈ l, a ≠ b → List.Disjoint (f a) (f b) := by
  have : Std.Symm (Function.onFun List.Disjoint f) := ⟨fun _ _ hdisjoint => hdisjoint.symm⟩
  constructor
  · intro hpairwise a ha b hb hne
    exact hpairwise.forall ha hb hne
  · intro hne
    exact hnodup.pairwise_of_forall_ne hne

/-- The references of two lists of instructions are disjoint if they share no direct transfer. -/
theorem disjoint_refs_iff {insns insns' : List Instruction}
    (hfetch : ∀ insn ∈ insns, fetch insn.address = some insn)
    (hfetch' : ∀ insn ∈ insns', fetch insn.address = some insn) :
    List.Disjoint (insns.flatMap refs) (insns'.flatMap refs) ↔
      ∀ insn, refs insn ≠ [] → insn ∈ insns → insn ∉ insns' := by
  constructor
  · intro hdisjoint insn hrefs hinsn hinsn'
    obtain ⟨x, hx⟩ := List.exists_mem_of_ne_nil _ hrefs
    exact hdisjoint (List.mem_flatMap.mpr ⟨insn, hinsn, hx⟩)
      (List.mem_flatMap.mpr ⟨insn, hinsn', hx⟩)
  · intro hnone x hx hx'
    obtain ⟨insn, hinsn, hx⟩ := List.mem_flatMap.mp hx
    obtain ⟨insn', hinsn', hx'⟩ := List.mem_flatMap.mp hx'
    have haddr : insn.address = insn'.address :=
      (mem_refs_iff.mp hx).1.symm.trans (mem_refs_iff.mp hx').1
    obtain rfl : insn = insn' := by
      rw [← Option.some.injEq, ← hfetch insn hinsn, ← hfetch' insn' hinsn', haddr]
    exact hnone insn (List.ne_nil_of_mem hx) hinsn hinsn'

theorem Chain.nodup_refs (hplaced : WellPlaced fetch) {a : U64} {insns : List Instruction}
    {exit : Exit} (h : Chain fetch a insns exit) : (insns.flatMap refs).Nodup := by
  rw [List.nodup_flatMap]
  refine ⟨fun insn _ => Analysis.nodup_refs insn, ?_⟩
  refine (h.pairwise_lt hplaced).imp fun {insn insn'} hlt x hx hx' => ?_
  rw [← (mem_refs_iff.mp hx).1, ← (mem_refs_iff.mp hx').1] at hlt
  exact BitVec.lt_irrefl _ hlt

/-- The references of a search are distinct if no direct transfer was traced from two
leaders. -/
theorem Explored.nodup_refs_iff (hplaced : WellPlaced fetch) (h : Explored fetch entry s) :
    (s.data.flatMap fun p => p.2.flatMap refs).Nodup ↔
      ∀ p ∈ s.data, ∀ p' ∈ s.data, ∀ insn, refs insn ≠ [] → insn ∈ p.2 → insn ∈ p'.2 → p = p' := by
  have hchain : ∀ p ∈ s.data, ∃ exit, Chain fetch p.1 p.2 exit := by
    intro p hp
    obtain ⟨_, _, exit, -, -, hrun⟩ := h.exists_run p hp
    exact ⟨exit, hrun.chain⟩
  have hfetch : ∀ p ∈ s.data, ∀ insn ∈ p.2, fetch insn.address = some insn := by
    intro p hp
    obtain ⟨exit, hexit⟩ := hchain p hp
    exact hexit.fetch_eq hplaced.toPlaced
  have hdata : s.data.Nodup := h.exact.nodup_done.of_map Prod.fst
  rw [List.nodup_flatMap, pairwise_disjoint_iff_forall_ne hdata]
  constructor
  · rintro ⟨-, hdisjoint⟩ p hp p' hp' insn hrefs hinsn hinsn'
    by_contra hne
    exact (disjoint_refs_iff (hfetch p hp) (hfetch p' hp')).mp (hdisjoint p hp p' hp' hne) insn
      hrefs hinsn hinsn'
  · intro honce
    refine ⟨fun p hp => ?_, fun p hp p' hp' hne => ?_⟩
    · obtain ⟨exit, hexit⟩ := hchain p hp
      exact hexit.nodup_refs hplaced
    · exact (disjoint_refs_iff (hfetch p hp) (hfetch p' hp')).mpr fun insn hrefs hinsn hinsn' =>
        hne (honce p hp p' hp' insn hrefs hinsn hinsn')

end Search

/-! ## When every direct transfer is traced once -/

/-- No direct transfer of a function lies in two of its blocks: there is one leader from which
decoding falls through to it without passing another one. -/
def InOneBlock (fetch : U64 → Option Instruction) (entry : U64) : Prop :=
  ∀ i insn, fetch i = some insn → refs insn ≠ [] → ∀ l l', Leader fetch entry l →
    Leader fetch entry l' → FallsTo fetch l i → FallsTo fetch l' i →
    (∀ k, Leader fetch entry k → ¬ OnWay fetch l k i) →
    (∀ k, Leader fetch entry k → ¬ OnWay fetch l' k i) → l = l'

/-- No run is traced to a direct transfer through leaders that are all found later. -/
def FoundInTime (fetch : U64 → Option Instruction) (entry : U64) : Prop :=
  ∀ s l rest, Explored fetch entry s → s.work = l :: rest → ∀ i insn, fetch i = some insn →
    refs insn ≠ [] → ∀ k, Leader fetch entry k → OnWay fetch l k i →
    ∃ known ∈ s.queued, OnWay fetch l known i

section Once

variable {fetch : U64 → Option Instruction} {entry : U64} {s : Search}

theorem OnWay.trans {l k k' i : U64} (hplaced : WellPlaced fetch) (h : OnWay fetch l k i)
    (h' : OnWay fetch k k' i) : OnWay fetch l k' i := by
  refine ⟨?_, h.enter.trans h'.enter, h'.leave⟩
  rintro rfl
  exact h.ne (fallsTo_antisymm hplaced h'.enter h.enter)

/-- The last leader on the way to an instruction. -/
theorem exists_last_onWay (hplaced : WellPlaced fetch) {leader : U64 → Prop} {l k i : U64}
    (hk : leader k) (hway : OnWay fetch l k i) :
    ∃ last, leader last ∧ OnWay fetch l last i ∧ ∀ k, leader k → ¬ OnWay fetch last k i := by
  induction hn : i.toNat - k.toNat using Nat.strong_induction_on generalizing k with
  | _ n ih =>
      by_cases hlast : ∀ k', leader k' → ¬ OnWay fetch k k' i
      · exact ⟨k, hk, hway, hlast⟩
      · push Not at hlast
        obtain ⟨k', hk', hway'⟩ := hlast
        have hle := fallsTo_le hplaced hway'.enter
        have hle' := fallsTo_le hplaced hway'.leave
        have hne : k.toNat ≠ k'.toNat := fun heq => hway'.ne (BitVec.eq_of_toNat_eq heq).symm
        exact ih _ (by omega) hk' (hway.trans hplaced hway') rfl

theorem Explored.exists_traced (h : Explored fetch entry s) (hdone : s.work = []) {l : U64}
    (hl : l ∈ s.queued) : ∃ p ∈ s.data, p.1 = l := by
  have hmem := (h.exact.mem_queued_iff l).mp hl
  rw [hdone, List.append_nil] at hmem
  exact List.mem_map.mp hmem

/-- A run reaches the instructions behind its leader, up to the next leader. -/
theorem Explored.mem_of_fallsTo (hplaced : WellPlaced fetch) (h : Explored fetch entry s)
    {p : U64 × List Instruction} (hp : p ∈ s.data) {i : U64} {insn : Instruction}
    (hinsn : fetch i = some insn) (hfalls : FallsTo fetch p.1 i)
    (hclear : ∀ k, Leader fetch entry k → ¬ OnWay fetch p.1 k i) : insn ∈ p.2 := by
  obtain ⟨s', rest, exit, hs', -, hrun⟩ := h.exists_run p hp
  exact (hrun.mem_iff hplaced hinsn).mpr ⟨hfalls, fun k hk => hclear k (hs'.leader k hk)⟩

/-- If leaders are found in time, a run passes none on the way to a direct transfer. -/
theorem FoundInTime.clear (hplaced : WellPlaced fetch) (htime : FoundInTime fetch entry)
    (h : Explored fetch entry s) {p : U64 × List Instruction} (hp : p ∈ s.data)
    {insn : Instruction} (hrefs : refs insn ≠ []) (hmem : insn ∈ p.2) :
    fetch insn.address = some insn ∧ FallsTo fetch p.1 insn.address ∧
      ∀ k, Leader fetch entry k → ¬ OnWay fetch p.1 k insn.address := by
  obtain ⟨s', rest, exit, hs', hwork, hrun⟩ := h.exists_run p hp
  have hfetch := hrun.chain.fetch_eq hplaced.toPlaced insn hmem
  obtain ⟨hfalls, hknown⟩ := (hrun.mem_iff hplaced hfetch).mp hmem
  refine ⟨hfetch, hfalls, fun k hk hway => ?_⟩
  obtain ⟨known, hqueued, hbefore⟩ :=
    htime s' p.1 rest hs' hwork insn.address insn hfetch hrefs k hk hway
  exact hknown known hqueued hbefore

/-- **When a search meets every direct transfer once.** -/
theorem Explored.once_iff (hplaced : WellPlaced fetch) (h : Explored fetch entry s)
    (hdone : s.work = []) (hall : ∀ l, Leader fetch entry l → l ∈ s.queued) :
    (s.data.flatMap fun p => p.2.flatMap refs).Nodup ↔
      InOneBlock fetch entry ∧ FoundInTime fetch entry := by
  have htraced : ∀ l, Leader fetch entry l → ∃ p ∈ s.data, p.1 = l :=
    fun l hl => h.exists_traced hdone (hall l hl)
  rw [h.nodup_refs_iff hplaced]
  constructor
  · intro honce
    constructor
    · intro i insn hinsn hrefs l l' hl hl' hfalls hfalls' hclear hclear'
      obtain ⟨p, hp, rfl⟩ := htraced l hl
      obtain ⟨p', hp', rfl⟩ := htraced l' hl'
      rw [honce p hp p' hp' insn hrefs (h.mem_of_fallsTo hplaced hp hinsn hfalls hclear)
        (h.mem_of_fallsTo hplaced hp' hinsn hfalls' hclear')]
    · intro s' l rest hs' hwork i insn hinsn hrefs k hk hway
      by_contra hnone
      push Not at hnone
      -- the transfer is traced from this leader, and from the last one on the way
      have hleader : Leader fetch entry l := hs'.leader l (hs'.exact.mem_queued_of_work hwork)
      obtain ⟨p, hp, rfl⟩ := htraced l hleader
      obtain ⟨s'', rest', exit, hs'', hwork', hrun⟩ := h.exists_run p hp
      obtain rfl := hs'.eq_of_work hplaced hs'' hwork hwork'
      have hmem := (hrun.mem_iff hplaced hinsn).mpr ⟨hway.enter.trans hway.leave, hnone⟩
      obtain ⟨last, hlast, hlastWay, hclear⟩ := exists_last_onWay hplaced hk hway
      obtain ⟨p', hp', rfl⟩ := htraced last hlast
      have hmem' := h.mem_of_fallsTo hplaced hp' hinsn hlastWay.leave hclear
      exact hlastWay.ne (congrArg Prod.fst (honce p hp p' hp' insn hrefs hmem hmem')).symm
  · rintro ⟨hblock, htime⟩ p hp p' hp' insn hrefs hinsn hinsn'
    have hleader : ∀ p ∈ s.data, Leader fetch entry p.1 :=
      fun p hp => h.leader p.1 (h.exact.mem_queued_of_done (List.mem_map_of_mem hp))
    -- neither run passes a leader, known or not
    obtain ⟨hfetch, hfalls, hnone⟩ := htime.clear hplaced h hp hrefs hinsn
    obtain ⟨-, hfalls', hnone'⟩ := htime.clear hplaced h hp' hrefs hinsn'
    have hfst := hblock insn.address insn hfetch hrefs p.1 p'.1 (hleader p hp) (hleader p' hp')
      hfalls hfalls' hnone hnone'
    exact List.inj_on_of_nodup_map h.exact.nodup_done hp hp' hfst

end Once

/-! ## `build` makes this search -/

/-- The worklist loop of `build` is in a state of the search. -/
structure Mirrors (fetch : U64 → Option Instruction) (entry : U64)
    (s : Worklist.State U64 Builder) (a : Search) : Prop where
  explored : Explored fetch entry a
  same : a.map (fun _ => ()) = s.map fun _ => ()
  traced : ∀ l ∈ s.data.blocks, l ∈ a.data.map Prod.fst
  xrefs : s.data.xrefs = a.data.flatMap fun p => p.2.flatMap refs

section Build

variable {disasm : Disassembler} {reader : ByteReader} {entry : U64}

theorem Mirrors.init (fetch : U64 → Option Instruction) (entry : U64) :
    Mirrors fetch entry
      ⟨[entry], {entry}, { leaders := (∅ : Std.ExtTreeSet U64).insert entry }⟩
      ⟨[entry], {entry}, []⟩ where
  explored := .refl
  same := rfl
  traced l hl := by simp at hl
  xrefs := rfl

theorem Mirrors.step (hplaced : WellPlaced (fetch disasm reader)) {fuel : ℕ}
    (hfuel : 2 ^ 64 < fuel) {s : Worklist.State U64 Builder} {a : Search} {start : U64}
    {rest : List U64} (hdisc : Discovered (fetch disasm reader) entry [] s)
    (h : Mirrors (fetch disasm reader) entry s a) (hwork : s.work = start :: rest) :
    ∃ b found a', visitBlock disasm reader fuel start s.data = some (b, found) ∧
      Discovered (fetch disasm reader) entry []
        (Worklist.State.enqueueAll { s with work := rest, data := b } found) ∧
      Mirrors (fetch disasm reader) entry
        (Worklist.State.enqueueAll { s with work := rest, data := b } found) a' := by
  obtain ⟨hworkEq, hqueuedEq⟩ : a.work = s.work ∧ a.queued = s.queued :=
    ⟨congrArg Worklist.State.work h.same, congrArg Worklist.State.queued h.same⟩
  -- what is on the queue was not traced yet
  have hnew : start ∉ s.data.blocks := fun hmem =>
    h.explored.exact.notMem_done (hworkEq.trans hwork) (h.traced start hmem)
  obtain ⟨insns, exit, htraced, hrun⟩ := traceBlock_spec hplaced hfuel start s.data
  have hknown : ∀ l, l ∈ a.queued ↔ l ∈ s.data.leaders := fun l => by
    rw [hqueuedEq, hdisc.queued_iff hplaced]
  have hrunFrom : RunFrom (fetch disasm reader) a.queued start insns exit :=
    ⟨htraced.chain, fun insn hinsn hne hmem => htraced.clear insn hinsn hne ((hknown _).mp hmem),
      fun hcut => ⟨(hknown _).mpr (htraced.cut_mem hcut).1, (htraced.cut_mem hcut).2⟩⟩
  refine ⟨_, _, _, ?_, hdisc.trace hplaced.toPlaced hwork htraced,
    h.explored.tail (.trace (hworkEq.trans hwork) hrunFrom), ?_, ?_, ?_⟩
  · rw [visitBlock, if_neg hnew, hrun]
    rfl
  · rw [Worklist.State.map_enqueueAll, Worklist.State.map_enqueueAll]
    simp only [Worklist.State.map, hqueuedEq]
  · intro l hl
    rw [Worklist.State.data_enqueueAll] at hl ⊢
    rw [Std.ExtTreeMap.mem_insertIfNew, Std.compare_eq_iff_eq] at hl
    rw [List.map_append, List.mem_append]
    rcases hl with rfl | hl
    · exact Or.inr (List.mem_singleton_self _)
    · exact Or.inl (h.traced l hl)
  · rw [Worklist.State.data_enqueueAll, Worklist.State.data_enqueueAll, List.flatMap_append,
      ← h.xrefs, List.flatMap_singleton]
    rfl

/-- **`build` makes the search**, to its end. -/
theorem run_visitBlock_explored (hplaced : WellPlaced (fetch disasm reader)) (entry : U64)
    {fuel : ℕ} (hfuel : 2 ^ 64 < fuel) : ∃ s a,
    Worklist.run (visitBlock disasm reader fuel) fuel
        ⟨[entry], {entry}, { leaders := (∅ : Std.ExtTreeSet U64).insert entry }⟩ = some s.data ∧
      (Discovered (fetch disasm reader) entry [] s ∧ Mirrors (fetch disasm reader) entry s a) ∧
      s.work = [] := by
  obtain ⟨s, hrun, ⟨a, ha⟩, hdone⟩ := Worklist.run_spec
    (fun s => ∃ a, Discovered (fetch disasm reader) entry [] s ∧
      Mirrors (fetch disasm reader) entry s a)
    (fun s start rest ⟨a, hdisc, hmirrors⟩ hwork => by
      obtain ⟨b, found, a', hvisit, hnext⟩ := hmirrors.step hplaced hfuel hdisc hwork
      exact ⟨b, found, hvisit, a', hnext⟩)
    ⟨_, Discovered.init _ entry [], Mirrors.init _ entry⟩
    (show Worklist.State.potential _ < fuel by
      simp only [Worklist.State.potential, List.length_singleton, Finset.card_singleton, card_u64]
      omega)
  exact ⟨s, a, hrun, ha, hdone⟩

theorem Built.xrefs_eq {r : Function × List U64 × List Xref} (h : Built disasm reader entry r)
    {fuel : ℕ} {b : Builder}
    (hrun : Worklist.run (visitBlock disasm reader fuel) fuel
      ⟨[entry], {entry}, { leaders := (∅ : Std.ExtTreeSet U64).insert entry }⟩ = some b) :
    r.2.2 = b.xrefs := by
  obtain ⟨bound, hbuild⟩ := h.run
  have hmore := Worklist.run_mono (visitBlock_mono (le_max_left fuel bound))
    (le_max_left fuel bound) hrun
  obtain ⟨b', hrun', -, -, hxrefs⟩ := build_eq_some.mp (hbuild _ (le_max_right fuel bound))
  obtain rfl : b = b' := Option.some.inj (hmore.symm.trans hrun')
  exact hxrefs

/-- **When the references of one function are distinct.** -/
theorem Built.nodup_iff (hplaced : WellPlaced (fetch disasm reader))
    {r : Function × List U64 × List Xref} (h : Built disasm reader entry r) :
    r.2.2.Nodup ↔ InOneBlock (fetch disasm reader) entry ∧
      FoundInTime (fetch disasm reader) entry := by
  obtain ⟨s, a, hrun, ⟨hdisc, hmirrors⟩, hdone⟩ :=
    run_visitBlock_explored hplaced entry (Nat.lt_succ_self (2 ^ 64))
  have hwork : a.work = s.work := congrArg Worklist.State.work hmirrors.same
  have hqueued : a.queued = s.queued := congrArg Worklist.State.queued hmirrors.same
  rw [h.xrefs_eq hrun, hmirrors.xrefs,
    hmirrors.explored.once_iff hplaced (hwork.trans hdone) fun l hl => ?_]
  rw [hqueued, hdisc.queued_iff hplaced,
    hdisc.mem_leaders_iff hplaced.toPlaced (hplaced.nullSafe _) hdone]
  exact hl

end Build

end Irida.Analysis
