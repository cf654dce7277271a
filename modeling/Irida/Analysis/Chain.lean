import Irida.Analysis.Builder
import Mathlib.Algebra.BigOperators.Group.List.Basic

/-!
# Decode chains, reachable instructions and leaders

What the analyzer is for, in terms of the code alone.  A program image is a
partial map `fetch` from addresses to instructions.  From it:

* `Reached entry` is the least set of instruction addresses that contains the
  entry and is closed under the successors of its instructions;
* `Leader entry` is the set of addresses at which a basic block has to start;
* `Chain a insns exit` says that decoding from `a` yields `insns` one after the
  other, all but the last falling through, and ends as `exit` says.

`blockOf` is the basic block that a chain makes up.  Nothing here refers to a
worklist or to an order of tracing.
-/

namespace Irida.Analysis

open Disasm

/-- The instruction at an address: `trace_block` reads a window and decodes it. -/
def fetch (disasm : Disassembler) (reader : ByteReader) (pc : U64) : Option Instruction :=
  let window := reader.read pc kReadWindow
  if window.length = 0 then none
  else
    match disasm.decodeOne window pc with
    | .error _ => none
    | .ok insn => some insn

theorem decodeOne_of_fetch {disasm : Disassembler} {reader : ByteReader} {pc : U64}
    {insn : Instruction} (h : fetch disasm reader pc = some insn) :
    (reader.read pc kReadWindow).length ≠ 0 ∧
      disasm.decodeOne (reader.read pc kReadWindow) pc = .ok insn := by
  simp only [fetch] at h
  split at h
  · simp at h
  · next hwindow =>
      split at h
      · simp at h
      · next heq => exact ⟨hwindow, by rw [heq, Option.some.inj h]⟩

/-- Every instruction sits at the address it was fetched from. -/
structure Placed (fetch : U64 → Option Instruction) : Prop where
  address_eq : ∀ {pc insn}, fetch pc = some insn → insn.address = pc

/-- Every instruction sits at the address it was fetched from, is not empty, and
ends within the address space. -/
structure WellPlaced (fetch : U64 → Option Instruction) : Prop extends Placed fetch where
  length_pos : ∀ {pc insn}, fetch pc = some insn → 0 < insn.length.toNat
  end_lt : ∀ {pc insn}, fetch pc = some insn →
    insn.address.toNat + insn.length.toNat < 2 ^ 64

theorem placed_fetch {disasm : Disassembler} {reader : ByteReader} (hlawful : disasm.Lawful) :
    Placed (fetch disasm reader) where
  address_eq h := hlawful.address_eq (decodeOne_of_fetch h).2

/-- A lawful decoder gives well placed instructions if none of them reaches the
end of the address space. -/
theorem wellPlaced_fetch {disasm : Disassembler} {reader : ByteReader} (hlawful : disasm.Lawful)
    (hend : ∀ pc insn, fetch disasm reader pc = some insn →
      insn.address.toNat + insn.length.toNat < 2 ^ 64) :
    WellPlaced (fetch disasm reader) where
  toPlaced := placed_fetch hlawful
  length_pos h := hlawful.length_pos (decodeOne_of_fetch h).2
  end_lt h := hend _ _ h

/-! ## Control flow -/

/-- Decoding goes on into the next instruction of the same block. -/
def FallsThrough (insn : Instruction) : Prop :=
  insn.flow = .sequential ∨ insn.flow = .call

/-- Decoding goes on from one instruction into the next one. -/
def FallsInto (fetch : U64 → Option Instruction) (a b : U64) : Prop :=
  ∃ insn, fetch a = some insn ∧ FallsThrough insn ∧ insn.next = b

/-- A transfer whose target belongs to the same function. -/
def Branches (insn : Instruction) : Prop :=
  (insn.flow = .jump ∨ insn.flow = .condJump) ∧ insn.branchTarget ≠ 0

/-- A target, unless it is the null address that stands for an indirect one. -/
def direct (target : U64) : List U64 :=
  if target ≠ 0 then [target] else []

@[simp] theorem mem_direct {target l : U64} : l ∈ direct target ↔ l = target ∧ target ≠ 0 := by
  unfold direct
  split <;> simp_all

/-- The direct call target of an instruction, if it has one. -/
def callTargets (insn : Instruction) : List U64 :=
  if insn.flow = .call then direct insn.branchTarget else []

/-- The references an instruction makes. -/
def refs (insn : Instruction) : List Xref :=
  match insn.flow with
  | .jump | .condJump => (direct insn.branchTarget).map fun t => ⟨insn.address, t, .jump⟩
  | .call => (direct insn.branchTarget).map fun t => ⟨insn.address, t, .call⟩
  | .ret | .sequential => []

section Reach

variable (fetch : U64 → Option Instruction) (entry : U64)

/-- The address of a successor of an instruction within its function. -/
inductive Succ : U64 → U64 → Prop
  | next {a : U64} {insn : Instruction} : fetch a = some insn →
      FallsThrough insn ∨ insn.flow = .condJump → Succ a insn.next
  | target {a : U64} {insn : Instruction} : fetch a = some insn → Branches insn →
      Succ a insn.branchTarget

/-- The least set of decodable addresses that contains the entry, if it decodes,
and is closed under `Succ`. -/
inductive Reached : U64 → Prop
  | entry : (fetch entry).isSome → Reached entry
  | succ {a b : U64} : Reached a → Succ fetch a b → (fetch b).isSome → Reached b

/-- The addresses at which a block has to start. -/
inductive Leader : U64 → Prop
  | entry : Leader entry
  | target {a : U64} {insn : Instruction} : Reached fetch entry a → fetch a = some insn →
      Branches insn → Leader insn.branchTarget
  | next {a : U64} {insn : Instruction} : Reached fetch entry a → fetch a = some insn →
      insn.flow = .condJump → Leader insn.next

variable {fetch entry}

theorem Succ.of_fetch {a b : U64} {insn : Instruction} (h : Succ fetch a b)
    (hinsn : fetch a = some insn) :
    (b = insn.next ∧ (FallsThrough insn ∨ insn.flow = .condJump)) ∨
      (b = insn.branchTarget ∧ Branches insn) := by
  cases h with
  | next hother hflow =>
      obtain rfl := Option.some.inj (hother.symm.trans hinsn)
      exact Or.inl ⟨rfl, hflow⟩
  | target hother hbr =>
      obtain rfl := Option.some.inj (hother.symm.trans hinsn)
      exact Or.inr ⟨rfl, hbr⟩

theorem Leader.reached {l : U64} (h : Leader fetch entry l) (hl : (fetch l).isSome) :
    Reached fetch entry l := by
  cases h with
  | entry => exact .entry hl
  | target ha hinsn hbr => exact ha.succ (.target hinsn hbr) hl
  | next ha hinsn hflow => exact ha.succ (.next hinsn (Or.inr hflow)) hl

end Reach

/-! ## Chains -/

/-- How a chain of instructions ends: at a transfer, at an address that does not
decode, or cut before an address. -/
inductive Exit
  | jump (target : U64)
  | condJump (target next : U64)
  | ret
  | dead
  | cut (next : U64)
  deriving DecidableEq

namespace Exit

/-- `bb.jump`. -/
def jumpEdge : Exit → U64
  | .jump target => target
  | .condJump target _ => target
  | .ret | .dead | .cut _ => 0

/-- `bb.fail`. -/
def failEdge : Exit → U64
  | .condJump _ next => next
  | .cut next => next
  | .jump _ | .ret | .dead => 0

/-- The leaders that `trace_block` registers at the end of a block. -/
def newLeaders : Exit → List U64
  | .jump target => direct target
  | .condJump target next => direct target ++ [next]
  | .ret | .dead | .cut _ => []

end Exit

/-- Decoding from an address yields these instructions and ends like this. -/
inductive Chain (fetch : U64 → Option Instruction) : U64 → List Instruction → Exit → Prop
  | dead {a : U64} : fetch a = none → Chain fetch a [] .dead
  | cut {a : U64} : Chain fetch a [] (.cut a)
  | jump {a : U64} {insn : Instruction} : fetch a = some insn → insn.flow = .jump →
      Chain fetch a [insn] (.jump insn.branchTarget)
  | condJump {a : U64} {insn : Instruction} : fetch a = some insn → insn.flow = .condJump →
      Chain fetch a [insn] (.condJump insn.branchTarget insn.next)
  | ret {a : U64} {insn : Instruction} : fetch a = some insn → insn.flow = .ret →
      Chain fetch a [insn] .ret
  | more {a : U64} {insn : Instruction} {insns : List Instruction} {exit : Exit} :
      fetch a = some insn → FallsThrough insn → Chain fetch insn.next insns exit →
      Chain fetch a (insn :: insns) exit

theorem Exit.mem_edges {exit : Exit} {l : U64} :
    l ∈ [exit.jumpEdge, exit.failEdge].filter (· ≠ 0) ↔
      l ≠ 0 ∧ (l ∈ exit.newLeaders ∨ exit = .cut l) := by
  cases exit <;> simp [jumpEdge, failEdge, newLeaders] <;> grind

/-- The number of bytes of a list of instructions, as `bb.size` adds them up. -/
def sizeOf (insns : List Instruction) : U64 :=
  (insns.map fun insn => insn.length.setWidth 64).sum

/-- The same number, without the wrap-around. -/
def natSize (insns : List Instruction) : ℕ :=
  (insns.map fun insn => insn.length.toNat).sum

/-- The block that a chain from `start` makes up. -/
def blockOf (start : U64) (insns : List Instruction) (exit : Exit) : BasicBlock :=
  { addr := start
    size := sizeOf insns
    jump := exit.jumpEdge
    fail := exit.failEdge
    instrAddrs := insns.map Instruction.address }

@[simp] theorem sizeOf_nil : sizeOf [] = 0 := rfl

@[simp] theorem sizeOf_cons (insn : Instruction) (insns : List Instruction) :
    sizeOf (insn :: insns) = insn.length.setWidth 64 + sizeOf insns := by
  simp [sizeOf]

@[simp] theorem natSize_nil : natSize [] = 0 := rfl

@[simp] theorem natSize_cons (insn : Instruction) (insns : List Instruction) :
    natSize (insn :: insns) = insn.length.toNat + natSize insns := by
  simp [natSize]

namespace Chain

variable {fetch : U64 → Option Instruction} {a : U64} {insns : List Instruction} {exit : Exit}

/-- Every instruction of a chain is the one fetched at its own address. -/
theorem fetch_eq (hplaced : Placed fetch) (h : Chain fetch a insns exit) :
    ∀ insn ∈ insns, fetch insn.address = some insn := by
  induction h with
  | dead _ | cut => simp
  | jump hinsn _ | condJump hinsn _ | ret hinsn _ =>
      simp only [List.mem_singleton, forall_eq]
      rwa [hplaced.address_eq hinsn]
  | more hinsn _ _ ih =>
      rw [List.forall_mem_cons]
      exact ⟨by rwa [hplaced.address_eq hinsn], ih⟩

theorem head_address (hplaced : Placed fetch) {insn : Instruction}
    (h : Chain fetch a (insn :: insns) exit) : insn.address = a := by
  cases h with
  | jump hinsn _ | condJump hinsn _ | ret hinsn _ | more hinsn _ _ =>
      exact hplaced.address_eq hinsn

/-- What follows the first instructions of a chain is a chain of its own. -/
theorem exists_suffix {before after : List Instruction} {insn : Instruction}
    (h : Chain fetch a (before ++ insn :: after) exit) :
    ∃ b, Chain fetch b (insn :: after) exit := by
  induction before generalizing a with
  | nil => exact ⟨a, h⟩
  | cons first before ih =>
      generalize hwhole : first :: before ++ insn :: after = insns at h
      cases h with
      | dead _ | cut => simp at hwhole
      | jump _ _ | condJump _ _ | ret _ _ => simp at hwhole
      | more _ _ hrest =>
          obtain ⟨-, rfl⟩ := List.cons.inj hwhole
          exact ih hrest

theorem suffix (hplaced : Placed fetch) {before after : List Instruction} {insn : Instruction}
    (h : Chain fetch a (before ++ insn :: after) exit) :
    Chain fetch insn.address (insn :: after) exit := by
  obtain ⟨b, hsuffix⟩ := h.exists_suffix
  rwa [hsuffix.head_address hplaced]

theorem ne_nil (h : Chain fetch a insns exit) (ha : (fetch a).isSome) (hcut : exit ≠ .cut a) :
    insns ≠ [] := by
  cases h with
  | dead hnone => simp [hnone] at ha
  | cut => exact absurd rfl hcut
  | jump _ _ | condJump _ _ | ret _ _ | more _ _ _ => simp

/-- A chain from an address that decodes starts with the instruction there, unless it is cut at
once. -/
theorem exists_head (hplaced : Placed fetch) (h : Chain fetch a insns exit)
    (ha : (fetch a).isSome) (hcut : exit = .cut a → insns ≠ []) :
    ∃ insn ∈ insns, insn.address = a := by
  have hne : insns ≠ [] := by
    by_cases hexit : exit = .cut a
    · exact hcut hexit
    · exact h.ne_nil ha hexit
  obtain ⟨insn, rest, rfl⟩ := List.exists_cons_of_ne_nil hne
  exact ⟨insn, List.mem_cons_self .., h.head_address hplaced⟩

/-- The instructions of a chain lie one after the other between its start and
its end, and the end lies in the address space. -/
theorem bounds (hplaced : WellPlaced fetch) (h : Chain fetch a insns exit) :
    a.toNat + natSize insns < 2 ^ 64 ∧
      ∀ insn ∈ insns, a.toNat ≤ insn.address.toNat ∧
        insn.address.toNat < a.toNat + natSize insns := by
  induction h with
  | @dead a _ | @cut a => exact ⟨by simpa using a.isLt, by simp⟩
  | @jump a insn hinsn _ | @condJump a insn hinsn _ | @ret a insn hinsn _ =>
      have hend := hplaced.end_lt hinsn
      have hpos := hplaced.length_pos hinsn
      rw [hplaced.address_eq hinsn] at hend
      simp only [natSize_cons, natSize_nil, List.mem_singleton, forall_eq,
        hplaced.address_eq hinsn]
      omega
  | @more a insn insns exit hinsn _ _ ih =>
      have hnext := Instruction.toNat_next (hplaced.end_lt hinsn)
      have hpos := hplaced.length_pos hinsn
      rw [hplaced.address_eq hinsn] at hnext
      obtain ⟨hend, hmem⟩ := ih
      rw [hnext] at hend hmem
      simp only [natSize_cons, List.forall_mem_cons, hplaced.address_eq hinsn]
      refine ⟨by omega, by omega, fun other hother => ?_⟩
      have := hmem other hother
      omega

theorem pairwise_lt (hplaced : WellPlaced fetch) (h : Chain fetch a insns exit) :
    insns.Pairwise fun earlier later => earlier.address < later.address := by
  induction h with
  | dead _ | cut => exact List.Pairwise.nil
  | jump _ _ | condJump _ _ | ret _ _ => exact List.pairwise_singleton _ _
  | @more a insn insns exit hinsn _ hrest ih =>
      refine List.pairwise_cons.mpr ⟨fun later hlater => ?_, ih⟩
      have hge := ((hrest.bounds hplaced).2 later hlater).1
      have hnext := Instruction.toNat_next (hplaced.end_lt hinsn)
      have hpos := hplaced.length_pos hinsn
      rw [BitVec.lt_def]
      omega

theorem toNat_sizeOf (hplaced : WellPlaced fetch) (h : Chain fetch a insns exit) :
    (sizeOf insns).toNat = natSize insns := by
  have hlt : natSize insns < 2 ^ 64 := by
    have := (h.bounds hplaced).1
    omega
  clear h
  induction insns with
  | nil => rfl
  | cons insn insns ih =>
      rw [natSize_cons] at hlt
      rw [sizeOf_cons, BitVec.toNat_add, BitVec.toNat_setWidth, natSize_cons, ih (by omega)]
      omega

/-- A chain can be cut before any of its instructions but the first. -/
theorem split (hplaced : Placed fetch) {first second : List Instruction} {insn : Instruction}
    (h : Chain fetch a (first ++ insn :: second) exit) :
    Chain fetch a first (.cut insn.address) ∧ insn.address = a + sizeOf first := by
  induction first generalizing a with
  | nil =>
      have hhead : insn.address = a := h.head_address hplaced
      rw [hhead]
      exact ⟨.cut, by simp⟩
  | cons head first ih =>
      rw [List.cons_append] at h
      generalize hrest : first ++ insn :: second = rest at h ih
      cases h with
      | jump _ _ | condJump _ _ | ret _ _ => simp at hrest
      | more hinsn hflow hchain =>
          obtain ⟨hcut, haddr⟩ := ih hchain
          refine ⟨.more hinsn hflow hcut, ?_⟩
          rw [haddr, sizeOf_cons, Instruction.next, hplaced.address_eq hinsn, add_assoc]

/-- The successors of an instruction that ends a block are registered. -/
theorem mem_newLeaders (hplaced : Placed fetch) {b : U64} {insn : Instruction}
    (h : Chain fetch a insns exit) (hmem : insn ∈ insns) (hends : ¬ FallsThrough insn)
    (hsucc : Succ fetch insn.address b) : b ∈ exit.newLeaders := by
  have hcases := hsucc.of_fetch (h.fetch_eq hplaced insn hmem)
  -- only the last instruction of a chain does not fall through
  induction h with
  | dead _ | cut => simp at hmem
  | @jump _ _ _ hflow =>
      obtain rfl := List.mem_singleton.mp hmem
      rcases hcases with ⟨-, hfalls | hcond⟩ | ⟨rfl, hbr⟩
      · exact absurd hfalls hends
      · simp [hflow] at hcond
      · exact mem_direct.mpr ⟨rfl, hbr.2⟩
  | @condJump _ _ _ hflow =>
      obtain rfl := List.mem_singleton.mp hmem
      rw [Exit.newLeaders, List.mem_append, List.mem_singleton, mem_direct]
      rcases hcases with ⟨rfl, -⟩ | ⟨rfl, hbr⟩
      · exact Or.inr rfl
      · exact Or.inl ⟨rfl, hbr.2⟩
  | @ret _ _ _ hflow =>
      obtain rfl := List.mem_singleton.mp hmem
      simp [FallsThrough, Branches, hflow] at hcases
  | more _ hfalls _ ih =>
      rcases List.mem_cons.mp hmem with rfl | hmem
      · exact absurd hfalls hends
      · exact ih hmem

/-- Where the successors of the instructions of a chain are: in the chain, among
the leaders it registers, at its cut, or at an address that does not decode. -/
theorem succ_mem (hplaced : Placed fetch) {b : U64} {insn : Instruction}
    (h : Chain fetch a insns exit) (hmem : insn ∈ insns) (hsucc : Succ fetch insn.address b) :
    (∃ other ∈ insns, other.address = b) ∨ b ∈ exit.newLeaders ∨ exit = .cut b ∨
      fetch b = none := by
  by_cases hends : FallsThrough insn
  case neg => exact Or.inr (Or.inl (h.mem_newLeaders hplaced hmem hends hsucc))
  obtain rfl : b = insn.next := by
    rcases hsucc.of_fetch (h.fetch_eq hplaced insn hmem) with ⟨rfl, -⟩ | ⟨-, hbr⟩
    · rfl
    · rcases hends with hflow | hflow <;> simp [Branches, hflow] at hbr
  -- the next instruction is the one behind it in the chain, or the chain stops there
  clear hsucc
  induction h with
  | dead _ | cut => simp at hmem
  | jump _ hflow | condJump _ hflow | ret _ hflow =>
      obtain rfl := List.mem_singleton.mp hmem
      simp [FallsThrough, hflow] at hends
  | more _ _ hrest ih =>
      rcases List.mem_cons.mp hmem with rfl | hmem
      · cases hrest with
        | dead hnone => exact Or.inr (Or.inr (Or.inr hnone))
        | cut => exact Or.inr (Or.inr (Or.inl rfl))
        | jump hinsn _ | condJump hinsn _ | ret hinsn _ | more hinsn _ _ =>
            exact Or.inl ⟨_, by simp, hplaced.address_eq hinsn⟩
      · rcases ih hmem with ⟨other, hother, haddr⟩ | hrest
        · exact Or.inl ⟨other, List.mem_cons_of_mem _ hother, haddr⟩
        · exact Or.inr hrest

theorem reached (hplaced : Placed fetch) {entry : U64} (h : Chain fetch a insns exit)
    (ha : (fetch a).isSome → Reached fetch entry a) :
    ∀ insn ∈ insns, Reached fetch entry insn.address := by
  induction h with
  | dead _ | cut => simp
  | jump hinsn _ | condJump hinsn _ | ret hinsn _ =>
      simp only [List.mem_singleton, forall_eq]
      rw [hplaced.address_eq hinsn]
      exact ha (by simp [hinsn])
  | more hinsn hflow _ ih =>
      have hreached := ha (by simp [hinsn])
      rw [List.forall_mem_cons]
      exact ⟨by rwa [hplaced.address_eq hinsn], ih (hreached.succ (.next hinsn (Or.inl hflow)))⟩

/-- The leaders registered at the end of a chain of reachable instructions. -/
theorem leader_of_mem_newLeaders {entry : U64} (h : Chain fetch a insns exit)
    (ha : (fetch a).isSome → Reached fetch entry a) :
    ∀ l ∈ exit.newLeaders, Leader fetch entry l := by
  induction h with
  | dead _ | cut | ret _ _ => simp [Exit.newLeaders]
  | jump hinsn hflow =>
      intro l hl
      obtain ⟨rfl, htarget⟩ := mem_direct.mp hl
      exact .target (ha (by simp [hinsn])) hinsn ⟨Or.inl hflow, htarget⟩
  | condJump hinsn hflow =>
      intro l hl
      have hreached := ha (by simp [hinsn])
      rw [Exit.newLeaders, List.mem_append, List.mem_singleton, mem_direct] at hl
      rcases hl with ⟨rfl, htarget⟩ | rfl
      · exact .target hreached hinsn ⟨Or.inr hflow, htarget⟩
      · exact .next hreached hinsn hflow
  | more hinsn hflow _ ih =>
      exact ih ((ha (by simp [hinsn])).succ (.next hinsn (Or.inl hflow)))

/-- No leader registered at the end of a chain is the null address: targets are not, and `next`
addresses are larger than the address they follow. -/
theorem ne_zero_of_mem_newLeaders (hplaced : WellPlaced fetch) (h : Chain fetch a insns exit) :
    ∀ l ∈ exit.newLeaders, l ≠ 0 := by
  induction h with
  | dead _ | cut | ret _ _ => simp [Exit.newLeaders]
  | jump _ _ =>
      intro l hl
      obtain ⟨rfl, htarget⟩ := mem_direct.mp hl
      exact htarget
  | condJump hinsn _ =>
      intro l hl
      rw [Exit.newLeaders, List.mem_append, List.mem_singleton, mem_direct] at hl
      rcases hl with ⟨rfl, htarget⟩ | rfl
      · exact htarget
      · intro hzero
        have hnext := Instruction.toNat_next (hplaced.end_lt hinsn)
        have hpos := hplaced.length_pos hinsn
        rw [hzero] at hnext
        simp at hnext
        omega
  | more _ _ _ ih => exact ih

end Chain

end Irida.Analysis
