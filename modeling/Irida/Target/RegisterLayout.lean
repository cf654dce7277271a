import Irida.Backend.Native
import Irida.Backend.Profiles
import Irida.Host.Context
import Irida.Target.Target

/-!
# One register layout

Five tables say where the registers lie in a raw block: the order of `RegisterSet::decode`, the
profile of the gdb backend, the slots of the native backend, the order in which a `CONTEXT` is
written into a block, and the offset at which `write_rip` writes.  `decode_eq` is what `decode` does
to a block of any length: it reads the fields of the gdb profile that the block has.
-/

namespace Irida.Target

open Backend Host NativeBackend

/-! ## What a block decodes to -/

/-- The registers that a block has, with the numbers in their fields. -/
def present (fields : List RegisterField) (block : Bytes) : List (String × U64) :=
  (fields.filter fun f => f.offset < block.length).map fun f => (f.name, f.value block)

theorem decodeLe_eq (bs : Bytes) :
    RegisterSet.decodeLe bs = BitVec.ofNat 64 (LittleEndian.value bs) := by
  induction bs with
  | nil => rfl
  | cons b bs ih =>
      have hdisjoint : b.setWidth 64 &&& BitVec.ofNat 64 (LittleEndian.value bs) <<< 8 = 0#64 := by
        apply BitVec.eq_of_getLsbD_eq
        intro i hi
        by_cases h : i < 8
        · simp [h]
        · simp [BitVec.getLsbD_of_ge b i (by omega)]
      calc RegisterSet.decodeLe (b :: bs)
          = b.setWidth 64 ||| BitVec.ofNat 64 (LittleEndian.value bs) <<< 8 := by
            rw [RegisterSet.decodeLe, ih]
        _ = b.setWidth 64 + BitVec.ofNat 64 (LittleEndian.value bs) <<< 8 :=
            (BitVec.add_eq_or_of_and_eq_zero _ _ hdisjoint).symm
        _ = BitVec.ofNat 64 (LittleEndian.value (b :: bs)) := by
            apply BitVec.eq_of_toNat_eq
            have hb : b.toNat < 2 ^ 8 := b.isLt
            simp only [LittleEndian.value, BitVec.toNat_add, BitVec.toNat_setWidth,
              BitVec.toNat_shiftLeft, BitVec.toNat_ofNat, Nat.shiftLeft_eq]
            omega

theorem present_cons (f : RegisterField) (fields : List RegisterField) (block : Bytes) :
    present (f :: fields) block =
      if f.offset < block.length then (f.name, f.value block) :: present fields block
      else present fields block := by
  unfold present
  by_cases h : f.offset < block.length <;> simp [h]

theorem present_append (fields fields' : List RegisterField) (block : Bytes) :
    present (fields ++ fields') block = present fields block ++ present fields' block := by
  rw [present, List.filter_append, List.map_append, present, present]

theorem present_fieldsFrom_of_le {names : List String} {block : Bytes} {offset : ℕ}
    (h : block.length ≤ offset) : present (fieldsFrom 8 offset names) block = [] := by
  induction names generalizing offset with
  | nil => rfl
  | cons name names ih =>
      rw [fieldsFrom, present_cons, if_neg (Nat.not_lt.mpr h), ih (Nat.le_add_right_of_le h)]

/-- The loop over the 64-bit slots reads the fields that begin inside the block. -/
theorem decodeQwords_drop (names : List String) (block : Bytes) (offset : ℕ) :
    RegisterSet.decodeQwords names (block.drop offset) =
      (present (fieldsFrom 8 offset names) block, block.drop (offset + 8 * names.length)) := by
  induction names generalizing offset with
  | nil => simp [RegisterSet.decodeQwords, fieldsFrom, present]
  | cons name names ih =>
      have hnext : offset + 8 + 8 * names.length = offset + 8 * (name :: names).length := by
        rw [List.length_cons, Nat.mul_succ]
        omega
      rw [RegisterSet.decodeQwords]
      by_cases h : offset < block.length
      · rw [if_neg (by simpa using h), List.drop_drop, ih (offset + 8), hnext, decodeLe_eq,
          fieldsFrom, present_cons, if_pos h]
        rfl
      · have hle : block.length ≤ offset := Nat.le_of_not_lt h
        rw [if_pos (List.drop_eq_nil_of_le hle), present_fieldsFrom_of_le hle,
          List.drop_eq_nil_of_le (hle.trans (Nat.le_add_right _ _))]

theorem gdbProfile_fields :
    makeX8664GdbProfile.fields =
      fieldsFrom 8 0 RegisterSet.kQwordRegs ++ [⟨RegisterSet.kEflagsName, 136, 4⟩] := by
  show (placeFields [(RegisterSet.kEflagsName, 4)]
    (placeFields (RegisterSet.kQwordRegs.map fun name => (name, 8)) {})).fields = _
  rw [placeFields_eq]
  rfl

/-- The registers of a block: the fields of the gdb profile that it has. -/
def decoded (block : Bytes) : RegisterSet :=
  ⟨present makeX8664GdbProfile.fields block⟩

/-- `decode` reads the fields of the gdb profile, as far as the block goes. -/
theorem decode_eq (block : Bytes) : RegisterSet.decode block = .ok (decoded block) := by
  have hqwords := decodeQwords_drop RegisterSet.kQwordRegs block 0
  have hrest : 0 + 8 * RegisterSet.kQwordRegs.length = 136 := rfl
  rw [List.drop_zero, hrest] at hqwords
  rw [RegisterSet.decode, hqwords, decoded, gdbProfile_fields, present_append, present_cons]
  dsimp only
  by_cases h : 136 < block.length
  · rw [if_neg (by simpa using h), if_pos h, decodeLe_eq]
    rfl
  · rw [if_pos (List.drop_eq_nil_of_le (Nat.le_of_not_lt h)), if_neg h]
    simp [present]

/-! ## What a register of the block is -/

/-- The register of a name: the first field of that name that begins inside the block. -/
theorem get_present (fields : List RegisterField) (block : Bytes) (name : String) :
    RegisterSet.get ⟨present fields block⟩ name =
      ((fields.filter fun f => f.offset < block.length).find? fun f => f.name = name).map
        fun f => f.value block := by
  rw [RegisterSet.get, present, List.find?_map, Option.map_map]
  rfl

theorem gdbProfile_nodup : (makeX8664GdbProfile.fields.map (·.name)).Nodup := by
  decide

theorem eq_of_name_eq {f g : RegisterField} (hf : f ∈ makeX8664GdbProfile.fields)
    (hg : g ∈ makeX8664GdbProfile.fields) (h : g.name = f.name) : g = f :=
  List.inj_on_of_nodup_map gdbProfile_nodup hg hf h

/-- A register is there if its field begins inside the block, and is the number in the field. -/
theorem get_decoded (block : Bytes) {f : RegisterField} (hf : f ∈ makeX8664GdbProfile.fields) :
    (decoded block).get f.name =
      if f.offset < block.length then some (f.value block) else none := by
  rw [decoded, get_present]
  split
  · next h =>
      have hmem : f ∈ makeX8664GdbProfile.fields.filter fun f => f.offset < block.length :=
        List.mem_filter.mpr ⟨hf, by simpa using h⟩
      obtain ⟨g, hfind⟩ := Option.isSome_iff_exists.mp
        (List.find?_isSome (p := fun g : RegisterField => g.name = f.name) |>.mpr
          ⟨f, hmem, by simp⟩)
      obtain rfl : g = f :=
        eq_of_name_eq hf (List.mem_filter.mp (List.mem_of_find?_eq_some hfind)).1
          (by simpa using List.find?_some hfind)
      rw [hfind]
      rfl
  · next h =>
      rw [List.find?_eq_none.mpr]
      · rfl
      · intro g hg
        obtain ⟨hg, hlt⟩ := List.mem_filter.mp hg
        intro hname
        obtain rfl := eq_of_name_eq hf hg (by simpa using hname)
        exact h (by simpa using hlt)

theorem exists_field_of_get {block : Bytes} {name : String} {v : U64}
    (h : (decoded block).get name = some v) :
    ∃ f ∈ makeX8664GdbProfile.fields, f.name = name ∧ f.offset < block.length ∧
      f.value block = v := by
  rw [decoded, get_present, Option.map_eq_some_iff] at h
  obtain ⟨f, hfind, hv⟩ := h
  obtain ⟨hf, hlt⟩ := List.mem_filter.mp (List.mem_of_find?_eq_some hfind)
  exact ⟨f, hf, by simpa using List.find?_some hfind, by simpa using hlt, hv⟩

/-- `decode` reads the fields of a whole block as the gdb profile gives them. -/
theorem get_decoded_of_le {block : Bytes} (h : 140 ≤ block.length) {f : RegisterField}
    (hf : f ∈ makeX8664GdbProfile.fields) : (decoded block).get f.name = some (f.value block) := by
  have hinside : ∀ f ∈ makeX8664GdbProfile.fields, f.offset < 140 := by decide
  rw [get_decoded block hf, if_pos ((hinside f hf).trans_le h)]

/-! ## The block of a context -/

/-- The 64-bit registers of a context, by name. -/
def qwordsOf (c : Context) : List (String × U64) :=
  [("rax", c.rax), ("rbx", c.rbx), ("rcx", c.rcx), ("rdx", c.rdx), ("rsi", c.rsi), ("rdi", c.rdi),
    ("rbp", c.rbp), ("rsp", c.rsp), ("r8", c.r8), ("r9", c.r9), ("r10", c.r10), ("r11", c.r11),
    ("r12", c.r12), ("r13", c.r13), ("r14", c.r14), ("r15", c.r15), ("rip", c.rip)]

/-- The registers of a context that `decode` knows, by name. -/
def registersOf (c : Context) : List (String × U64) :=
  qwordsOf c ++ [("eflags", c.eFlags.setWidth 64)]

/-- The registers of a context under the names of the native profile. -/
def nativeRegistersOf (c : Context) : List (String × U64) :=
  qwordsOf c ++
    [("rflags", c.eFlags.setWidth 64), ("cs", c.segCs.setWidth 64), ("ss", c.segSs.setWidth 64),
      ("ds", c.segDs.setWidth 64), ("es", c.segEs.setWidth 64), ("fs", c.segFs.setWidth 64),
      ("gs", c.segGs.setWidth 64), ("dr0", c.dr0), ("dr1", c.dr1), ("dr2", c.dr2), ("dr3", c.dr3),
      ("dr6", c.dr6), ("dr7", c.dr7), ("reserved0", 0), ("reserved1", 0)]

/-- Fields of eight bytes, one after the other, are the slots of the block. -/
theorem map_fieldsFrom_contextToBlock (c : Context) {names : List String}
    (h : names.length ≤ c.slots.length) :
    ((fieldsFrom 8 0 names).map fun f => (f.name, f.value (contextToBlock c))) =
      names.zip (c.slots.map (BitVec.ofNat 64)) := by
  have hvalue : ∀ name i, (⟨name, 0 + i * 8, 8⟩ : RegisterField).value (contextToBlock c) =
      getSlot (contextToBlock c) i := fun name i => by
    rw [RegisterField.value, RegisterField.bytes, getSlot, LittleEndian.slot, Nat.zero_add]
  apply List.ext_getElem?
  intro i
  rw [List.getElem?_map, getElem?_fieldsFrom, Option.map_map, List.zip, List.getElem?_zipWith,
    List.getElem?_map]
  cases hname : names[i]? with
  | none => rfl
  | some name =>
      have hi : i < c.slots.length := (List.getElem?_eq_some_iff.mp hname).1.trans_le h
      rw [List.getElem?_eq_getElem hi]
      simp only [Option.map_some, Function.comp_apply, hvalue,
        getSlot_contextToBlock c (List.getElem?_eq_getElem hi)]

theorem eflags_contextToBlock (c : Context) :
    (⟨RegisterSet.kEflagsName, 136, 4⟩ : RegisterField).value (contextToBlock c) =
      c.eFlags.setWidth 64 := by
  have hslot : LittleEndian.slot 8 (contextToBlock c) 17 = LittleEndian.bytes 8 c.eFlags.toNat :=
    LittleEndian.slot_block 8 c.slots rfl
  have hbytes : ((contextToBlock c).drop 136).take 4 = LittleEndian.bytes 4 c.eFlags.toNat := by
    rw [← LittleEndian.take_bytes (n := 8) (by decide), ← hslot, LittleEndian.slot, List.take_take]
    rfl
  rw [RegisterField.value, RegisterField.bytes, hbytes, LittleEndian.value_bytes,
    Nat.mod_eq_of_lt (show c.eFlags.toNat < 256 ^ 4 from c.eFlags.isLt), BitVec.ofNat_toNat]

/-- The native profile reads each register of a context under its own name. -/
theorem map_nativeProfile (c : Context) :
    (makeNativeX8664Profile.fields.map fun f => (f.name, f.value (contextToBlock c))) =
      nativeRegistersOf c := by
  have hfields : makeNativeX8664Profile.fields = fieldsFrom 8 0 (kSlots.map Prod.fst) := by
    show (placeFields ((kSlots.map Prod.fst).map fun name => (name, 8)) {}).fields = _
    rw [placeFields_eq]
    rfl
  rw [hfields, map_fieldsFrom_contextToBlock c (le_of_eq rfl)]
  simp [kSlots, Context.slots, nativeRegistersOf, qwordsOf]

/-- The gdb profile, and so `decode`, reads each register of a context under its own name. -/
theorem map_gdbProfile (c : Context) :
    (makeX8664GdbProfile.fields.map fun f => (f.name, f.value (contextToBlock c))) =
      registersOf c := by
  have hshort : RegisterSet.kQwordRegs.length ≤ c.slots.length := by
    simp [Context.slots, RegisterSet.kQwordRegs]
  rw [gdbProfile_fields, List.map_append, map_fieldsFrom_contextToBlock c hshort,
    List.map_singleton, eflags_contextToBlock]
  simp [RegisterSet.kQwordRegs, Context.slots, registersOf, qwordsOf, RegisterSet.kEflagsName]

/-- `decode` gives every register of a context under its own name. -/
theorem get_decoded_contextToBlock (c : Context) {reg : String × U64} (h : reg ∈ registersOf c) :
    (decoded (contextToBlock c)).get reg.1 = some reg.2 := by
  rw [← map_gdbProfile] at h
  obtain ⟨f, hf, rfl⟩ := List.mem_map.mp h
  apply get_decoded_of_le _ hf
  rw [length_contextToBlock]
  decide

/-! ## Writing `rip` -/

theorem length_writeRip (block : Bytes) (v : U64) : (writeRip block v).length = block.length := by
  unfold writeRip
  split
  · next h => exact LittleEndian.length_setSlot v.toNat h
  · rfl

/-- `write_rip` overwrites the field of `rip`, if the block has it. -/
theorem get_rip_writeRip {block : Bytes} (h : 136 ≤ block.length) (v : U64) :
    (decoded (writeRip block v)).get "rip" = some v := by
  have hmem : (⟨"rip", 128, 8⟩ : RegisterField) ∈ makeX8664GdbProfile.fields := by decide
  have hfits : kRipOffset + 8 ≤ block.length := h
  have hbytes : ((writeRip block v).drop 128).take 8 = LittleEndian.bytes 8 v.toNat := by
    rw [writeRip, if_pos hfits]
    exact LittleEndian.slot_setSlot v.toNat hfits
  have hget := get_decoded (writeRip block v) hmem
  rw [if_pos (show 128 < _ by rw [length_writeRip]; omega), RegisterField.value,
    RegisterField.bytes, hbytes, LittleEndian.value_bytes,
    Nat.mod_eq_of_lt (show v.toNat < 256 ^ 8 from v.isLt), BitVec.ofNat_toNat,
    BitVec.setWidth_eq] at hget
  exact hget

/-- `write_rip` leaves the fields of the other registers alone. -/
theorem value_writeRip {f : RegisterField} (hf : f ∈ makeX8664GdbProfile.fields)
    (hname : f.name ≠ "rip") (block : Bytes) (v : U64) :
    f.value (writeRip block v) = f.value block := by
  have hdisjoint : ∀ f ∈ makeX8664GdbProfile.fields, f.name ≠ "rip" →
      f.offset + f.size ≤ 16 * 8 ∨ 16 * 8 + 8 ≤ f.offset := by decide
  unfold RegisterField.value RegisterField.bytes writeRip
  split
  · next h =>
      rcases hdisjoint f hf hname with hbelow | habove
      · rw [LittleEndian.take_drop_setSlot_of_le v.toNat h hbelow]
      · rw [LittleEndian.drop_setSlot_of_le v.toNat h habove]
  · rfl

theorem get_writeRip {name : String} (hname : name ≠ "rip") (block : Bytes) (v : U64) :
    (decoded (writeRip block v)).get name = (decoded block).get name := by
  rw [decoded, decoded, get_present, get_present, length_writeRip]
  cases hfind : (makeX8664GdbProfile.fields.filter fun f => f.offset < block.length).find?
      fun f => f.name = name with
  | none => rfl
  | some f =>
      have hf := (List.mem_filter.mp (List.mem_of_find?_eq_some hfind)).1
      obtain rfl : f.name = name := by simpa using List.find?_some hfind
      exact congrArg some (value_writeRip hf hname block v)

/-! ## The layouts agree -/

/-- **The register layouts agree.**  `decode` reads a whole block as the gdb profile says, gives
every register of a context under its own name, as the native profile does at the same offsets, and
sees what `write_rip` writes in `rip` and nowhere else. -/
theorem registerLayouts_agree :
    (∀ block : Bytes, block.length = 140 → ∃ r, RegisterSet.decode block = .ok r ∧
      ∀ f ∈ makeX8664GdbProfile.fields, r.get f.name = some (f.value block)) ∧
    (∀ c : Context, ∃ r, RegisterSet.decode (contextToBlock c) = .ok r ∧
      (∀ reg ∈ registersOf c, r.get reg.1 = some reg.2) ∧
      (makeNativeX8664Profile.fields.map fun f => (f.name, f.value (contextToBlock c))) =
        nativeRegistersOf c) ∧
    (makeNativeX8664Profile.fields.take 17 = makeX8664GdbProfile.fields.take 17 ∧
      (makeNativeX8664Profile.fields.take 18).map (·.offset) =
        makeX8664GdbProfile.fields.map (·.offset)) ∧
    ∀ (block : Bytes) (v : U64), 136 ≤ block.length →
      ∃ r r', RegisterSet.decode block = .ok r ∧ RegisterSet.decode (writeRip block v) = .ok r' ∧
        r'.get "rip" = some v ∧ ∀ name, name ≠ "rip" → r'.get name = r.get name := by
  refine ⟨fun block hlen => ⟨_, decode_eq block, fun f hf => ?_⟩,
    fun c => ⟨_, decode_eq _, fun reg hreg => ?_, map_nativeProfile c⟩, by decide,
    fun block v hlen => ⟨_, _, decode_eq block, decode_eq _, ?_, fun name hname => ?_⟩⟩
  · exact get_decoded_of_le hlen.ge hf
  · exact get_decoded_contextToBlock c hreg
  · exact get_rip_writeRip hlen v
  · exact get_writeRip hname block v

end Irida.Target
