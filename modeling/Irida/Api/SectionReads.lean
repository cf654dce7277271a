import Irida.Api.StaticSession

/-!
# Reads that run on

`read_at` decides by the virtual size of a section whether an address lies in it, and by its raw
size how far a read from there goes.  Raw data is padded to the alignment of the file, so that a
long read may go on over addresses which a short one does not find, or finds in the next section.
`splitsWell_iff` says which reads do not.
-/

namespace Irida

namespace Binfmt.Section

/-- Neither of the two sums of a section wraps around. -/
structure NoWrap (sec : Section) : Prop where
  virtual : sec.vaddr.toNat + sec.vsize.toNat < 2 ^ 64
  raw : sec.offset.toNat + sec.size.toNat < 2 ^ 64

/-- No address of the `len` from `addr` on lies in the virtual range of the section. -/
def Misses (sec : Section) (addr len : ℕ) : Prop :=
  min (addr + len) (sec.vaddr.toNat + sec.vsize.toNat) ≤ max addr sec.vaddr.toNat

instance (sec : Section) (addr len : ℕ) : Decidable (sec.Misses addr len) :=
  inferInstanceAs (Decidable (_ ≤ _))

/-- The virtual ranges of two sections have no address in common. -/
def Separate (sec other : Section) : Prop :=
  sec.Misses other.vaddr.toNat other.vsize.toNat

theorem Separate.symm {sec other : Section} (h : sec.Separate other) : other.Separate sec := by
  unfold Separate Misses at *
  omega

theorem NoWrap.covers_iff {sec : Section} (h : sec.NoWrap) {addr : U64} :
    sec.Covers addr ↔
      sec.vaddr.toNat ≤ addr.toNat ∧ addr.toNat < sec.vaddr.toNat + sec.vsize.toNat := by
  rw [Covers, BitVec.le_def, BitVec.lt_def, BitVec.toNat_add, Nat.mod_eq_of_lt h.virtual]

end Binfmt.Section

namespace Api

open Binfmt

namespace StaticCtx

variable (ctx : StaticCtx)

/-- How many bytes a read gets: as far as asked for, as the raw data of the section goes, and as
the file goes. -/
def reach (addr : U64) (n : ℕ) : ℕ :=
  match ctx.sectionAt addr with
  | none => 0
  | some sec =>
    let within := addr.toNat - sec.vaddr.toNat
    min n (min (sec.size.toNat - within) (ctx.image.length - (sec.offset.toNat + within)))

/-- Every byte of a read is the one that is read at its own address, which lies in the section of
the read and in no other. -/
def SplitsWell (addr : U64) (n : ℕ) : Prop :=
  ∀ i < (ctx.readAt addr n).length,
    (∃ b, ctx.readAt (addr + BitVec.ofNat 64 i) 1 = [b] ∧ (ctx.readAt addr n)[i]? = some b) ∧
    ∃ sec, ctx.sectionAt addr = some sec ∧ sec.Covers (addr + BitVec.ofNat 64 i) ∧
      ∀ other ∈ ctx.bin.sections.erase sec, ¬ other.Covers (addr + BitVec.ofNat 64 i)

/-- The bytes that a read can get end where the virtual range of the section ends or before, and
the ranges of the other sections do not meet them. -/
def StaysInside (addr : U64) (n : ℕ) : Prop :=
  ∀ sec, ctx.sectionAt addr = some sec →
    addr.toNat + ctx.reach addr n ≤ sec.vaddr.toNat + sec.vsize.toNat ∧
      ∀ other ∈ ctx.bin.sections.erase sec, other.Misses addr.toNat (ctx.reach addr n)

variable {ctx}

section

variable (hnowrap : ∀ sec ∈ ctx.bin.sections, sec.NoWrap) {addr : U64} {sec : Section}
  (hsec : ctx.sectionAt addr = some sec)

include hsec

theorem mem_of_sectionAt : sec ∈ ctx.bin.sections :=
  List.mem_of_find?_eq_some hsec

theorem covers_of_sectionAt : sec.Covers addr := by
  simpa using List.find?_some hsec

theorem reach_eq (n : ℕ) :
    ctx.reach addr n = min n (min (sec.size.toNat - (addr.toNat - sec.vaddr.toNat))
      (ctx.image.length - (sec.offset.toNat + (addr.toNat - sec.vaddr.toNat)))) := by
  rw [reach, hsec]

include hnowrap

theorem readAt_eq_take (n : ℕ) :
    ctx.readAt addr n =
      (ctx.image.drop (sec.offset.toNat + (addr.toNat - sec.vaddr.toNat))).take
        (ctx.reach addr n) := by
  have hwrap := hnowrap sec (mem_of_sectionAt hsec)
  have hcovers := hwrap.covers_iff.mp (covers_of_sectionAt hsec)
  have hsub : (addr - sec.vaddr).toNat = addr.toNat - sec.vaddr.toNat :=
    BitVec.toNat_sub_of_le (BitVec.le_def.mpr hcovers.1)
  rw [reach_eq hsec]
  by_cases hwithin : addr - sec.vaddr < sec.size
  · have hlt : addr.toNat - sec.vaddr.toNat < sec.size.toNat := by rwa [← hsub]
    have hoff : (sec.offset + (addr - sec.vaddr)).toNat =
        sec.offset.toNat + (addr.toNat - sec.vaddr.toNat) := by
      have := hwrap.raw
      rw [BitVec.toNat_add, hsub, Nat.mod_eq_of_lt (by omega)]
    rw [readAt_eq hsec hwithin, hoff, BitVec.toNat_sub_of_le (BitVec.le_of_lt hwithin), hsub,
      ← min_assoc, ← List.length_drop, ← List.take_eq_take_min]
  · -- the address lies in the padding beyond the file data
    have hge : sec.size.toNat ≤ addr.toNat - sec.vaddr.toNat := by
      rw [BitVec.lt_def, hsub] at hwithin
      omega
    have hzero : sec.size.toNat - (addr.toNat - sec.vaddr.toNat) = 0 := by omega
    rw [hzero, Nat.zero_min, Nat.min_zero, List.take_zero]
    rcases readAt_bounds ctx addr n with ⟨-, hnone⟩ | ⟨sec', -, m, hsec', -, -, -, -, hle, -, hlen⟩
    · exact hnone
    · obtain rfl : sec = sec' := Option.some.inj (hsec.symm.trans hsec')
      rw [hsub] at hle
      exact List.length_eq_zero_iff.mp (by omega)

theorem length_readAt (n : ℕ) : (ctx.readAt addr n).length = ctx.reach addr n := by
  rw [readAt_eq_take hnowrap hsec, List.length_take, List.length_drop, reach_eq hsec]
  omega

theorem getElem?_readAt {n i : ℕ} (hi : i < ctx.reach addr n) :
    (ctx.readAt addr n)[i]? =
      ctx.image[sec.offset.toNat + (addr.toNat - sec.vaddr.toNat) + i]? := by
  rw [readAt_eq_take hnowrap hsec, List.getElem?_take_of_lt hi, List.getElem?_drop]

end

/-- The section of an address that no other section covers. -/
theorem sectionAt_of_forall_erase {addr : U64} {sec : Section} (hmem : sec ∈ ctx.bin.sections)
    (hcovers : sec.Covers addr)
    (hothers : ∀ other ∈ ctx.bin.sections.erase sec, ¬ other.Covers addr) :
    ctx.sectionAt addr = some sec := by
  cases hfind : ctx.sectionAt addr with
  | none =>
      exact absurd hcovers (by simpa using List.find?_eq_none.mp hfind sec hmem)
  | some found =>
      by_contra hne
      have herase : found ∈ ctx.bin.sections.erase sec :=
        (List.mem_erase_of_ne fun heq => hne (congrArg some heq)).mpr (mem_of_sectionAt hfind)
      exact hothers found herase (covers_of_sectionAt hfind)

/-- A read that leaves its own range, or meets another one, does so at a byte of its own. -/
theorem staysInside_of_splitsWell (hnowrap : ∀ sec ∈ ctx.bin.sections, sec.NoWrap) {addr : U64}
    {n : ℕ} (h : ctx.SplitsWell addr n) : ctx.StaysInside addr n := by
  intro sec hsec
  have hwrap := hnowrap sec (mem_of_sectionAt hsec)
  have hcovers := hwrap.covers_iff.mp (covers_of_sectionAt hsec)
  -- the addresses that are read, as numbers
  have hat : ∀ i, i < ctx.reach addr n → addr.toNat + i < 2 ^ 64 →
      sec.Covers (addr + BitVec.ofNat 64 i) ∧ (addr + BitVec.ofNat 64 i).toNat = addr.toNat + i ∧
        ∀ other ∈ ctx.bin.sections.erase sec, ¬ other.Covers (addr + BitVec.ofNat 64 i) := by
    intro i hi hlt
    obtain ⟨-, sec', hsec', hin, hothers⟩ := h i (by rwa [length_readAt hnowrap hsec])
    obtain rfl : sec = sec' := Option.some.inj (hsec.symm.trans hsec')
    refine ⟨hin, ?_, hothers⟩
    rw [BitVec.toNat_add, BitVec.toNat_ofNat, Nat.mod_eq_of_lt (show i < 2 ^ 64 by omega),
      Nat.mod_eq_of_lt hlt]
  have hinside : addr.toNat + ctx.reach addr n ≤ sec.vaddr.toNat + sec.vsize.toNat := by
    by_contra hout
    have hend := hwrap.virtual
    obtain ⟨hin, hnat, -⟩ :=
      hat (sec.vaddr.toNat + sec.vsize.toNat - addr.toNat) (by omega) (by omega)
    have := (hwrap.covers_iff.mp hin).2
    omega
  refine ⟨hinside, fun other hother => ?_⟩
  have hwrap' := hnowrap other (List.mem_of_mem_erase hother)
  by_contra hmeet
  rw [Section.Misses, Nat.not_le] at hmeet
  -- the first address that both have
  have hend := hwrap.virtual
  obtain ⟨-, hnat, hothers⟩ :=
    hat (max addr.toNat other.vaddr.toNat - addr.toNat) (by omega) (by omega)
  apply hothers other hother
  rw [hwrap'.covers_iff, hnat]
  omega

/-- The addresses of a read inside its own range are served by its section, and by no other. -/
theorem StaysInside.serves (hnowrap : ∀ sec ∈ ctx.bin.sections, sec.NoWrap) {addr : U64}
    {n i : ℕ} {sec : Section} (h : ctx.StaysInside addr n) (hsec : ctx.sectionAt addr = some sec)
    (hi : i < ctx.reach addr n) :
    (addr + BitVec.ofNat 64 i).toNat = addr.toNat + i ∧ sec.Covers (addr + BitVec.ofNat 64 i) ∧
      ∀ other ∈ ctx.bin.sections.erase sec, ¬ other.Covers (addr + BitVec.ofNat 64 i) := by
  obtain ⟨hinside, hothers⟩ := h sec hsec
  have hwrap := hnowrap sec (mem_of_sectionAt hsec)
  have hcovers := hwrap.covers_iff.mp (covers_of_sectionAt hsec)
  have hend := hwrap.virtual
  have hnat : (addr + BitVec.ofNat 64 i).toNat = addr.toNat + i := by
    rw [BitVec.toNat_add, BitVec.toNat_ofNat, Nat.mod_eq_of_lt (show i < 2 ^ 64 by omega),
      Nat.mod_eq_of_lt (by omega)]
  refine ⟨hnat, ?_, fun other hother hcov => ?_⟩
  · rw [hwrap.covers_iff, hnat]
    omega
  · have hcov := (hnowrap other (List.mem_of_mem_erase hother)).covers_iff.mp hcov
    have hmisses := hothers other hother
    rw [Section.Misses] at hmisses
    omega

/-- A read inside its own range finds at each address what a read of one byte finds there. -/
theorem splitsWell_of_staysInside (hnowrap : ∀ sec ∈ ctx.bin.sections, sec.NoWrap) {addr : U64}
    {n : ℕ} (h : ctx.StaysInside addr n) : ctx.SplitsWell addr n := by
  intro i hi
  cases hsec : ctx.sectionAt addr with
  | none =>
      rcases readAt_bounds ctx addr n with ⟨-, hread⟩ | ⟨sec, -, -, hsec', -⟩
      · rw [hread] at hi
        exact absurd hi (Nat.not_lt_zero i)
      · rw [hsec] at hsec'
        cases hsec'
  | some sec =>
      rw [length_readAt hnowrap hsec] at hi
      obtain ⟨hnat, hin, hout⟩ := h.serves hnowrap hsec hi
      have hwrap := hnowrap sec (mem_of_sectionAt hsec)
      have hcovers := hwrap.covers_iff.mp (covers_of_sectionAt hsec)
      -- so it is the section of the single byte as well
      have hsec' : ctx.sectionAt (addr + BitVec.ofNat 64 i) = some sec :=
        sectionAt_of_forall_erase (mem_of_sectionAt hsec) hin hout
      have hone : ctx.reach (addr + BitVec.ofNat 64 i) 1 = 1 := by
        rw [reach_eq hsec] at hi
        rw [reach_eq hsec', hnat]
        omega
      obtain ⟨b, hb⟩ : ∃ b, (ctx.readAt addr n)[i]? = some b := by
        have hlen : i < (ctx.readAt addr n).length := by rwa [length_readAt hnowrap hsec]
        exact ⟨_, List.getElem?_eq_getElem hlen⟩
      refine ⟨⟨b, ?_, hb⟩, sec, rfl, hin, hout⟩
      obtain ⟨c, hc⟩ := List.length_eq_one_iff.mp ((length_readAt hnowrap hsec' 1).trans hone)
      have hbyte := getElem?_readAt hnowrap hsec' (n := 1) (i := 0) (by omega)
      rw [getElem?_readAt hnowrap hsec hi] at hb
      rw [hc, hnat, Nat.add_zero, Nat.sub_add_comm (by omega), ← Nat.add_assoc, hb] at hbyte
      rw [hc, Option.some.inj hbyte]

/-- **When a read may be split.**  A read gets at each address what a read of that address alone
gets, and nothing from outside of its section or from another one, exactly if the bytes that it can
get end with the virtual range and meet no other section. -/
theorem splitsWell_iff (hnowrap : ∀ sec ∈ ctx.bin.sections, sec.NoWrap) (addr : U64) (n : ℕ) :
    ctx.SplitsWell addr n ↔ ctx.StaysInside addr n :=
  ⟨staysInside_of_splitsWell hnowrap, splitsWell_of_staysInside hnowrap⟩

/-- Where the sections lie apart and none has more raw data than memory, every read may be split. -/
theorem splitsWell_of_unpadded (hnowrap : ∀ sec ∈ ctx.bin.sections, sec.NoWrap)
    (hseparate : ctx.bin.sections.Pairwise Section.Separate)
    (hraw : ∀ sec ∈ ctx.bin.sections, sec.size.toNat ≤ sec.vsize.toNat) (addr : U64) (n : ℕ) :
    ctx.SplitsWell addr n := by
  apply splitsWell_of_staysInside hnowrap
  intro sec hsec
  have hmem := mem_of_sectionAt hsec
  have hcovers := (hnowrap sec hmem).covers_iff.mp (covers_of_sectionAt hsec)
  have hsize := hraw sec hmem
  have hinside : addr.toNat + ctx.reach addr n ≤ sec.vaddr.toNat + sec.vsize.toNat := by
    rw [reach_eq hsec]
    omega
  refine ⟨hinside, fun other hother => ?_⟩
  have hcons : (sec :: ctx.bin.sections.erase sec).Pairwise Section.Separate :=
    ((List.perm_cons_erase hmem).pairwise_iff Section.Separate.symm).mp hseparate
  have hothers := (List.pairwise_cons.mp hcons).1 other hother
  unfold Section.Separate Section.Misses at *
  omega

end StaticCtx

/-- A file with a section of four bytes whose raw data is padded to eight, and another section. -/
def paddedCtx : StaticCtx where
  bin := { imageBase := 0, sections := [⟨0x1000, 4, 0, 8⟩, ⟨0x2000, 4, 8, 4⟩] }
  image := [0, 1, 2, 3, 4, 5, 6, 7, 8, 9, 10, 11]
  length_lt := by decide

private theorem paddedCtx_noWrap : ∀ sec ∈ paddedCtx.bin.sections, sec.NoWrap := by
  intro sec hsec
  rcases List.mem_cons.mp hsec with rfl | hsec
  · exact ⟨by decide, by decide⟩
  · obtain rfl := List.mem_singleton.mp hsec
    exact ⟨by decide, by decide⟩

/-- A read of the four bytes of the section splits well. -/
theorem splitsWell_paddedCtx : paddedCtx.SplitsWell 0x1000 4 ↔ paddedCtx.StaysInside 0x1000 4 :=
  StaticCtx.splitsWell_iff paddedCtx_noWrap 0x1000 4

/-- A read of eight bytes gets the padding as well, where a read of one byte finds nothing. -/
theorem not_splitsWell_paddedCtx :
    ¬ ∀ ctx : StaticCtx, (∀ sec ∈ ctx.bin.sections, sec.NoWrap) →
      ∀ (addr : U64) (n : ℕ), ctx.SplitsWell addr n := by
  intro h
  obtain ⟨⟨b, hone, -⟩, -⟩ := h paddedCtx paddedCtx_noWrap 0x1000 8 4 (by decide)
  have hnothing : paddedCtx.readAt (0x1000 + BitVec.ofNat 64 4) 1 = [] := by decide
  rw [hnothing] at hone
  cases hone

end Api

end Irida
