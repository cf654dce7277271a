import Irida.Binfmt.Binary
import Irida.Binfmt.Strings

/-!
# The static session

`read_at` and `static_strings` of `capi_static.cpp`.

Every static query but one goes through `read_at`, which finds the section that an address lies in
and maps the address to a file offset.  `static_strings` scans the raw file instead, and takes the
image base plus the file offset for the address.  `strings_navigable_iff` says that this is the
address of the string exactly if the section that covers it lies in memory where it lies in the
file.
-/

namespace Irida.Api

open Binfmt

/-- `IridaStaticCtx`: the parsed binary and the bytes of its file, whose number is a `size_t`. -/
structure StaticCtx where
  bin : BinaryInfo
  image : Bytes
  length_lt : image.length < 2 ^ 64

/-- `IridaString`. -/
structure StringRow where
  addr : U64
  text : Bytes
  deriving DecidableEq, Repr

/-- The loop of `read_at` over the sections: the file offset and the number of the bytes that are
copied. -/
def copySource (image : Bytes) (vaddr : U64) (n : ℕ) : List Section → Option (U64 × ℕ)
  | [] => none
  | sec :: rest =>
    if vaddr < sec.vaddr ∨ sec.vaddr + sec.vsize ≤ vaddr then copySource image vaddr n rest
    else
      let within := vaddr - sec.vaddr
      -- in virtual padding beyond the file data
      if sec.size ≤ within then none
      else
        let fileOff := sec.offset + within
        if image.length ≤ fileOff.toNat then none
        else some (fileOff, min (min n (image.length - fileOff.toNat)) (sec.size - within).toNat)

namespace StaticCtx

variable (ctx : StaticCtx)

/-- `IridaStaticCtx::read_at`: the bytes that are filled in. -/
def readAt (vaddr : U64) (n : ℕ) : Bytes :=
  match copySource ctx.image vaddr n ctx.bin.sections with
  | none => []
  | some (fileOff, n) => (ctx.image.drop fileOff.toNat).take n

/-- The strings that `static_strings` finds: `scan_strings` with its default `min_len`. -/
def foundStrings : List FoundString :=
  scanStrings ctx.image ctx.bin.imageBase 4

/-- The rows of `static_strings`. -/
def staticStrings : List StringRow :=
  ctx.foundStrings.map fun f => ⟨f.addr, f.text⟩

/-! ## Where an address lies in the file -/

/-- The section that `read_at` goes by: the first one that covers the address. -/
def sectionAt (vaddr : U64) : Option Section :=
  ctx.bin.sections.find? fun sec => decide (sec.Covers vaddr)

/-- The section table maps the address to the file offset. -/
def MapsTo (vaddr : U64) (start : ℕ) : Prop :=
  ∃ sec, ctx.sectionAt vaddr = some sec ∧ vaddr - sec.vaddr < sec.size ∧
    (sec.offset + (vaddr - sec.vaddr)).toNat = start ∧ start < ctx.image.length

/-- The row of a string that stands at a file offset leads to the string: its address is the
address of that offset, and what is read there is its text. -/
def Navigable (row : StringRow) (start : ℕ) : Prop :=
  ctx.MapsTo row.addr start ∧ ctx.readAt row.addr row.text.length = row.text

/-- The first section that covers the image base plus a file offset is flat, and its raw data
goes on for `len` bytes from there. -/
def FlatAt (start len : ℕ) : Prop :=
  ∃ sec, ctx.sectionAt (ctx.bin.imageBase + BitVec.ofNat 64 start) = some sec ∧
    sec.Flat ctx.bin.imageBase ∧
    (BitVec.ofNat 64 start - sec.offset).toNat + len ≤ sec.size.toNat

end StaticCtx

/-! ## What is read at an address -/

theorem copySource_eq (image : Bytes) (vaddr : U64) (n : ℕ) (sections : List Section) :
    copySource image vaddr n sections =
      (sections.find? fun sec => decide (sec.Covers vaddr)).bind fun sec =>
        copySource image vaddr n [sec] := by
  induction sections with
  | nil => rfl
  | cons sec rest ih =>
      by_cases hcovers : sec.Covers vaddr
      · rw [List.find?_cons_of_pos (by simpa using hcovers), Option.bind_some]
        rw [copySource, copySource, if_neg (Section.not_covers_iff.not_right.mp hcovers),
          if_neg (Section.not_covers_iff.not_right.mp hcovers)]
      · rw [List.find?_cons_of_neg (by simpa using hcovers), ← ih, copySource,
          if_pos (Section.not_covers_iff.mp hcovers)]

/-- What the guards leave of a read that copies bytes. -/
theorem copySource_some {image : Bytes} {vaddr fileOff : U64} {n m : ℕ} {sec : Section}
    (h : copySource image vaddr n [sec] = some (fileOff, m)) :
    fileOff = sec.offset + (vaddr - sec.vaddr) ∧ vaddr - sec.vaddr < sec.size ∧
      fileOff.toNat < image.length ∧
      m = min (min n (image.length - fileOff.toNat)) (sec.size - (vaddr - sec.vaddr)).toNat := by
  rw [copySource] at h
  by_cases hcovers : vaddr < sec.vaddr ∨ sec.vaddr + sec.vsize ≤ vaddr
  · rw [if_pos hcovers] at h
    cases h
  rw [if_neg hcovers] at h
  by_cases hpadding : sec.size ≤ vaddr - sec.vaddr
  · simp only [if_pos hpadding] at h
    cases h
  simp only [if_neg hpadding] at h
  by_cases hend : image.length ≤ (sec.offset + (vaddr - sec.vaddr)).toNat
  · rw [if_pos hend] at h
    cases h
  rw [if_neg hend] at h
  cases h
  exact ⟨rfl, BitVec.not_le.mp hpadding, Nat.lt_of_not_le hend, rfl⟩

namespace StaticCtx

variable {ctx : StaticCtx}

/-- A read takes the bytes from the file offset of the address on, up to the end of the raw data
of the section. -/
theorem readAt_eq {vaddr : U64} {sec : Section} (hsec : ctx.sectionAt vaddr = some sec)
    (hwithin : vaddr - sec.vaddr < sec.size) (n : ℕ) :
    ctx.readAt vaddr n = (ctx.image.drop (sec.offset + (vaddr - sec.vaddr)).toNat).take
      (min n (sec.size - (vaddr - sec.vaddr)).toNat) := by
  have hcovers : sec.Covers vaddr := by simpa using List.find?_some hsec
  have hsource : copySource ctx.image vaddr n ctx.bin.sections =
      copySource ctx.image vaddr n [sec] := by
    rw [copySource_eq, show ctx.bin.sections.find? _ = some sec from hsec, Option.bind_some]
  rw [readAt, hsource, copySource, if_neg (Section.not_covers_iff.not_right.mp hcovers)]
  simp only [if_neg (BitVec.not_le.mpr hwithin)]
  rcases Nat.lt_or_ge (sec.offset + (vaddr - sec.vaddr)).toNat ctx.image.length with hlt | hge
  · rw [if_neg (not_le.mpr hlt)]
    simp only
    rw [min_right_comm, ← List.length_drop, ← List.take_eq_take_min]
  · rw [if_pos hge, List.drop_eq_nil_of_le hge, List.take_nil]

/-- **Reads stay in bounds**, whatever the section table says.  A read either fills in nothing, or
it copies `m` bytes from the file offset of the address, as the first section that covers it has it:
no more than asked for, all of them within the file and within the raw data of the section. -/
theorem readAt_bounds (ctx : StaticCtx) (vaddr : U64) (n : ℕ) :
    (copySource ctx.image vaddr n ctx.bin.sections = none ∧ ctx.readAt vaddr n = []) ∨
    ∃ sec fileOff m, ctx.sectionAt vaddr = some sec ∧
      copySource ctx.image vaddr n ctx.bin.sections = some (fileOff, m) ∧
      fileOff = sec.offset + (vaddr - sec.vaddr) ∧
      m ≤ n ∧ fileOff.toNat + m ≤ ctx.image.length ∧
      (vaddr - sec.vaddr).toNat + m ≤ sec.size.toNat ∧
      ctx.readAt vaddr n = (ctx.image.drop fileOff.toNat).take m ∧
      (ctx.readAt vaddr n).length = m := by
  rcases hsource : copySource ctx.image vaddr n ctx.bin.sections with _ | ⟨fileOff, m⟩
  · exact Or.inl ⟨rfl, by rw [readAt, hsource]⟩
  · right
    rw [copySource_eq] at hsource
    obtain ⟨sec, hsec, hcopy⟩ := Option.bind_eq_some_iff.mp hsource
    obtain ⟨hoff, hwithin, himage, hm⟩ := copySource_some hcopy
    have hfile : fileOff.toNat + m ≤ ctx.image.length := by omega
    have hrest : (vaddr - sec.vaddr).toNat + m ≤ sec.size.toNat := by
      rw [BitVec.toNat_sub_of_le (BitVec.le_of_lt hwithin)] at hm
      rw [BitVec.lt_def] at hwithin
      omega
    have hread : ctx.readAt vaddr n = (ctx.image.drop fileOff.toNat).take m := by
      rw [readAt, copySource_eq, hsource]
    refine ⟨sec, fileOff, m, hsec, rfl, hoff, by omega, hfile, hrest, hread, ?_⟩
    rw [hread, List.length_take, List.length_drop]
    omega

/-- The address of a row is mapped to the offset of its string exactly if the section that covers
it is flat. -/
theorem offset_eq_iff {sec : Section} {base : U64} {start : ℕ} (hstart : start < 2 ^ 64) :
    (sec.offset + (base + BitVec.ofNat 64 start - sec.vaddr)).toNat = start ↔ sec.Flat base := by
  have htoNat : (BitVec.ofNat 64 start : U64).toNat = start := by
    rw [BitVec.toNat_ofNat, Nat.mod_eq_of_lt hstart]
  rw [Section.Flat]
  constructor
  · intro h
    have hoffset : sec.offset + (base + BitVec.ofNat 64 start - sec.vaddr) =
        BitVec.ofNat 64 start := BitVec.eq_of_toNat_eq (h.trans htoNat.symm)
    grind
  · intro h
    have hoffset : sec.offset + (base + BitVec.ofNat 64 start - sec.vaddr) =
        BitVec.ofNat 64 start := by grind
    rw [hoffset, htoNat]

/-! ## The addresses of strings -/

/-- A string of the image leads to itself exactly if the section that covers its address is flat
and holds it. -/
theorem navigable_iff {row : StringRow} {start : ℕ} (hrun : PrintableRun ctx.image start row.text)
    (haddr : row.addr = ctx.bin.imageBase + BitVec.ofNat 64 start) (hpos : 0 < row.text.length) :
    ctx.Navigable row start ↔ ctx.FlatAt start row.text.length := by
  rw [Navigable, haddr]
  have hstart : start < 2 ^ 64 := hrun.start_lt.trans ctx.length_lt
  constructor
  · rintro ⟨⟨sec, hsec, hwithin, hoffset, -⟩, hread⟩
    have hflat := (offset_eq_iff hstart).mp hoffset
    rw [readAt_eq hsec hwithin] at hread
    have hlen := congrArg List.length hread
    rw [hflat.within_eq] at hlen hwithin
    rw [List.length_take, BitVec.toNat_sub_of_le (BitVec.le_of_lt hwithin)] at hlen
    exact ⟨sec, hsec, hflat, by rw [BitVec.lt_def] at hwithin; omega⟩
  · rintro ⟨sec, hsec, hflat, hend⟩
    have hoffset := (offset_eq_iff hstart).mpr hflat
    have hwithin := hflat.within_eq (BitVec.ofNat 64 start)
    have hlt : ctx.bin.imageBase + BitVec.ofNat 64 start - sec.vaddr < sec.size := by
      rw [hwithin, BitVec.lt_def]
      omega
    refine ⟨⟨sec, hsec, hlt, hoffset, hrun.start_lt⟩, ?_⟩
    -- the raw data of the section does not end before the string
    have hrest : row.text.length ≤
        (sec.size - (ctx.bin.imageBase + BitVec.ofNat 64 start - sec.vaddr)).toNat := by
      rw [BitVec.toNat_sub_of_le (BitVec.le_of_lt hlt), hwithin]
      omega
    rw [readAt_eq hsec hlt, hoffset, min_eq_left hrest, hrun.take_drop]

/-- **Which listed strings can be navigated to**: those that stand in the raw data of a section
that lies in memory where it lies in the file. -/
theorem strings_navigable_iff {f : FoundString} (hf : f ∈ ctx.foundStrings)
    (hutf : f.utf16 = false) :
    ∃ start, PrintableRun ctx.image start f.text ∧
      f.addr = ctx.bin.imageBase + BitVec.ofNat 64 start ∧
      ⟨f.addr, f.text⟩ ∈ ctx.staticStrings ∧
      (ctx.Navigable ⟨f.addr, f.text⟩ start ↔ ctx.FlatAt start f.text.length) := by
  obtain ⟨start, hrun, hlen, haddr⟩ := scanStrings_sound hf hutf
  exact ⟨start, hrun, haddr, List.mem_map_of_mem hf,
    navigable_iff hrun haddr (lt_of_lt_of_le (by decide) hlen)⟩

/-- Of a string in the raw data of the section that covers its address, only the section decides
whether it can be navigated to. -/
theorem flatAt_iff_flat {sec : Section} {start len : ℕ} (hstart : start < ctx.image.length)
    (hsec : ctx.sectionAt (ctx.bin.imageBase + BitVec.ofNat 64 start) = some sec)
    (hholds : sec.Holds start len) : ctx.FlatAt start len ↔ sec.Flat ctx.bin.imageBase := by
  have htoNat : (BitVec.ofNat 64 start : U64).toNat = start := by
    rw [BitVec.toNat_ofNat, Nat.mod_eq_of_lt (hstart.trans ctx.length_lt)]
  constructor
  · rintro ⟨sec', hsec', hflat, -⟩
    rwa [Option.some.inj (hsec.symm.trans hsec')]
  · obtain ⟨hfrom, hto, -⟩ := hholds
    intro hflat
    refine ⟨sec, hsec, hflat, ?_⟩
    rw [BitVec.toNat_sub_of_le (by rw [BitVec.le_def, htoNat]; exact hfrom), htoNat]
    omega

end StaticCtx

/-- A file with one section, whose raw data starts at offset 8 and whose memory starts two pages
from the image base. -/
def movedCtx : StaticCtx where
  bin := { imageBase := 0x140000000, sections := [⟨0x140002000, 8, 8, 8⟩] }
  image := List.replicate 8 0 ++ ascii "hello" ++ List.replicate 3 0
  length_lt := by decide

/-- A file with one section, whose raw data and memory both start at offset 8. -/
def flatCtx : StaticCtx where
  bin := { imageBase := 0x140000000, sections := [⟨0x140000008, 8, 8, 8⟩] }
  image := List.replicate 8 0 ++ ascii "hello" ++ List.replicate 3 0
  length_lt := by decide

/-- The string of the flat file can be navigated to. -/
theorem strings_navigable_flat :
    ∃ start, PrintableRun flatCtx.image start (ascii "hello") ∧
      0x140000008 = flatCtx.bin.imageBase + BitVec.ofNat 64 start ∧
      ⟨0x140000008, ascii "hello"⟩ ∈ flatCtx.staticStrings ∧
      (flatCtx.Navigable ⟨0x140000008, ascii "hello"⟩ start ↔
        flatCtx.FlatAt start (ascii "hello").length) :=
  StaticCtx.strings_navigable_iff (f := ⟨0x140000008, ascii "hello", false⟩)
    (by decide +kernel) rfl

/-- In general the bytes at the address of a listed string are not the string: nothing is mapped
at the address of `hello` in a file whose only section is moved. -/
theorem not_strings_navigable :
    ¬ ∀ (ctx : StaticCtx) (f : FoundString) (start : ℕ) (sec : Section), f ∈ ctx.foundStrings →
      f.utf16 = false → PrintableRun ctx.image start f.text →
      f.addr = ctx.bin.imageBase + BitVec.ofNat 64 start → sec ∈ ctx.bin.sections →
      sec.Holds start f.text.length → ctx.readAt f.addr f.text.length = f.text := by
  intro h
  have hrun : PrintableRun movedCtx.image 8 (ascii "hello") :=
    ⟨by decide, by decide, by decide⟩
  have hread := h movedCtx ⟨0x140000008, ascii "hello", false⟩ 8 ⟨0x140002000, 8, 8, 8⟩
    (by decide +kernel) rfl hrun (by decide) (by decide) (by decide)
  exact absurd hread (by decide)

end Irida.Api
