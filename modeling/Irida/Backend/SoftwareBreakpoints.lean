import Irida.Backend.Native
import Irida.Host.Machine
import Irida.Lib.Patch

/-!
# Software breakpoints in memory

The bytes that a native backend plants and takes out again.  The program's own
memory is the debuggee's with the saved bytes in place (`programMemory`), and it is
what setting and removing breakpoints should leave as it is.

`remove_breakpoint` always does, and so does `set_breakpoint` as long as the byte
that it reads is the program's own (`ShowsOwn`).  A second breakpoint at any other
address saves the `0xCC` of the first one, and what is then removed leaves it behind
(`set_twice_residue`).
-/

namespace Irida.NativeBackend

open Host Patch

variable {δ : Type} {host : NativeDebuggee δ} {mem : δ → U64 → Byte}

/-- Single bytes that are read or written with success are those of this memory, and
reading changes nothing. -/
structure FaithfulMemory (host : NativeDebuggee δ) (mem : δ → U64 → Byte) : Prop where
  read : ∀ {addr : U64} {d d' : δ} {bytes : Bytes},
    (host.readMemory addr 1).outcome d = (.ok bytes, d') →
      bytes = [mem d addr] ∧ mem d' = mem d
  write : ∀ {addr : U64} {x : Byte} {d d' : δ},
    (host.writeMemory addr [x]).outcome d = (.ok (), d') →
      mem d' = Function.update (mem d) addr x

/-- The memory of the debuggee without the planted bytes. -/
def programMemory (mem : δ → U64 → Byte) (b : NativeBackend δ) : U64 → Byte :=
  original b.saved (mem b.debuggee)

/-- Every tracked address holds the planted byte. -/
def Planted (mem : δ → U64 → Byte) (b : NativeBackend δ) : Prop :=
  Marked kSoftwareBpOpcode b.saved (mem b.debuggee)

/-- The debuggee holds the program's own byte at the address: it is not tracked, or the
byte saved for it is `0xCC` itself. -/
def ShowsOwn (b : NativeBackend δ) (addr : U64) : Prop :=
  b.saved addr = none ∨ b.saved addr = some kSoftwareBpOpcode

instance (b : NativeBackend δ) (addr : U64) : Decidable (ShowsOwn b addr) :=
  inferInstanceAs (Decidable (_ ∨ _))

/-- What is reached by successful calls of `set_breakpoint(SoftwareExec, …)`, made
only where `maySet` holds, and of `remove_breakpoint(SoftwareExec, …)`, which
fails without a host call where nothing is planted. -/
inductive Run (host : NativeDebuggee δ) (maySet : NativeBackend δ → U64 → Prop)
    (start : NativeBackend δ) : NativeBackend δ → Prop
  | start : Run host maySet start start
  | set (addr : U64) (size : ℤ) {b b' : NativeBackend δ} (h : Run host maySet start b)
      (hplant : maySet b addr)
      (hok : (setBreakpoint host .softwareExec addr size).outcome b = (.ok (), b')) :
      Run host maySet start b'
  | remove (addr : U64) (size : ℤ) {b b' : NativeBackend δ} {r : Result Unit}
      (h : Run host maySet start b)
      (hcall : (removeBreakpoint host .softwareExec addr size).outcome b = (r, b'))
      (hok : r = .ok () ∨ b.saved addr = none) :
      Run host maySet start b'

/-! ## One call -/

section Calls

variable {b b' : NativeBackend δ} {addr : U64} {size : ℤ}

theorem set_spec (hmem : FaithfulMemory host mem)
    (h : (setBreakpoint host .softwareExec addr size).outcome b = (.ok (), b')) :
    b'.saved = Function.update b.saved addr (some (mem b.debuggee addr)) ∧
      mem b'.debuggee = Function.update (mem b.debuggee) addr kSoftwareBpOpcode := by
  obtain ⟨-, bytes, d, d', hread, hwrite, rfl⟩ := setBreakpoint_software_eq_ok_iff.mp h
  obtain ⟨rfl, hkeep⟩ := hmem.read hread
  refine ⟨saved_insert _ addr _, ?_⟩
  rw [hmem.write hwrite, hkeep]

theorem remove_spec (hmem : FaithfulMemory host mem)
    (h : (removeBreakpoint host .softwareExec addr size).outcome b = (.ok (), b')) :
    ∃ x, b.saved addr = some x ∧ b'.saved = Function.update b.saved addr none ∧
      mem b'.debuggee = Function.update (mem b.debuggee) addr x := by
  obtain ⟨-, x, d, hsaved, hwrite, rfl⟩ := removeBreakpoint_software_eq_ok_iff.mp h
  exact ⟨x, hsaved, saved_erase _ addr, hmem.write hwrite⟩

theorem programMemory_set (hmem : FaithfulMemory host mem) (hb : Planted mem b)
    (hplant : ShowsOwn b addr)
    (h : (setBreakpoint host .softwareExec addr size).outcome b = (.ok (), b')) :
    programMemory mem b' = programMemory mem b ∧ Planted mem b' := by
  obtain ⟨hsaved, hmemory⟩ := set_spec hmem h
  unfold programMemory Planted
  rw [hsaved, hmemory]
  exact ⟨original_save (hb.original_eq hplant), hb.save _⟩

theorem programMemory_remove (hmem : FaithfulMemory host mem) (hb : Planted mem b)
    (h : (removeBreakpoint host .softwareExec addr size).outcome b = (.ok (), b')) :
    programMemory mem b' = programMemory mem b ∧ Planted mem b' := by
  obtain ⟨x, htracked, hsaved, hmemory⟩ := remove_spec hmem h
  unfold programMemory Planted
  rw [hsaved, hmemory]
  exact ⟨original_restore htracked, hb.restore⟩

end Calls

/-! ## A run -/

section Runs

variable {start b : NativeBackend δ}

/-- The program's own memory is never touched. -/
theorem Run.programMemory_eq (hmem : FaithfulMemory host mem) (hstart : start.swBpOrig = ∅)
    (h : Run host ShowsOwn start b) :
    programMemory mem b = mem start.debuggee ∧ Planted mem b := by
  induction h with
  | start =>
      have hsaved : start.saved = fun _ => none := funext (saved_eq_none hstart)
      unfold programMemory Planted
      rw [hsaved]
      exact ⟨original_none _, fun addr h => absurd rfl h⟩
  | set addr size _ hplant hok ih =>
      obtain ⟨heq, hplanted⟩ := programMemory_set hmem ih.2 hplant hok
      exact ⟨heq.trans ih.1, hplanted⟩
  | @remove addr size b b' r _ hcall hok ih =>
      rcases hok with rfl | hmissing
      · obtain ⟨heq, hplanted⟩ := programMemory_remove hmem ih.2 hcall
        exact ⟨heq.trans ih.1, hplanted⟩
      · -- nothing is planted there, and the call fails before it touches the host
        obtain rfl : b = b' := by
          rw [← removeBreakpoint_software_missing hmissing, hcall]
        exact ih

/-- **Breakpoints are restored.** In every run that sets breakpoints only where it
may, an address that is not tracked holds the byte from before the run; and if no
address is, so does the whole memory. -/
theorem Run.restored (hmem : FaithfulMemory host mem) (hstart : start.swBpOrig = ∅)
    (h : Run host ShowsOwn start b) :
    (∀ addr, b.swBpOrig[addr]? = none → mem b.debuggee addr = mem start.debuggee addr) ∧
      (b.swBpOrig = ∅ → mem b.debuggee = mem start.debuggee) := by
  obtain ⟨heq, -⟩ := h.programMemory_eq hmem hstart
  have huntracked : ∀ addr, b.swBpOrig[addr]? = none →
      mem b.debuggee addr = mem start.debuggee addr := by
    intro addr haddr
    calc mem b.debuggee addr
        = programMemory mem b addr := (original_of_none haddr).symm
      _ = mem start.debuggee addr := congrFun heq addr
  refine ⟨huntracked, fun hempty => funext fun addr => huntracked addr ?_⟩
  simp [hempty]

/-- A breakpoint that is set again where it may not be, and then removed, leaves the
`0xCC` in the place of another byte. -/
theorem set_twice_residue (hmem : FaithfulMemory host mem) (hstart : start.swBpOrig = ∅)
    (h : Run host ShowsOwn start b) {addr : U64} (hplant : ¬ ShowsOwn b addr) {size size' : ℤ}
    {b₁ b₂ : NativeBackend δ}
    (hset : (setBreakpoint host .softwareExec addr size).outcome b = (.ok (), b₁))
    (hremove : (removeBreakpoint host .softwareExec addr size').outcome b₁ = (.ok (), b₂)) :
    b₂.swBpOrig[addr]? = none ∧ mem b₂.debuggee addr ≠ mem start.debuggee addr := by
  obtain ⟨heq, hplanted⟩ := h.programMemory_eq hmem hstart
  obtain ⟨hsaved, -⟩ := set_spec hmem hset
  obtain ⟨x, hx, hsaved', hmemory⟩ := remove_spec hmem hremove
  refine ⟨(congrFun hsaved' addr).trans (Function.update_self ..), ?_⟩
  rcases not_or.mp hplant with ⟨hnone, hne⟩
  obtain ⟨own, hown⟩ := Option.ne_none_iff_exists'.mp hnone
  have hstart : mem start.debuggee addr = own := by
    calc mem start.debuggee addr
        = programMemory mem b addr := (congrFun heq addr).symm
      _ = own := original_of_some hown
  -- the call has read the planted byte back and saved that
  have hx : x = kSoftwareBpOpcode := by
    rw [hsaved, Function.update_self, Option.some.injEq] at hx
    rw [← hx]
    exact hplanted addr hnone
  rw [hmemory, Function.update_self, hstart, hx]
  rintro rfl
  exact hne hown

end Runs

/-! ## The machine as host -/

theorem faithfulMemory_machine (exec : ArchState → ArchState) (fuel : ℕ) :
    FaithfulMemory (Machine.debuggee exec fuel) fun m => m.arch.mem where
  read h := by
    rw [Machine.debuggee_readMemory_one] at h
    obtain ⟨hbytes, rfl⟩ := Prod.mk.inj h
    exact ⟨(Except.ok.inj hbytes).symm, rfl⟩
  write h := by
    rw [Machine.debuggee_writeMemory_one] at h
    obtain ⟨-, rfl⟩ := Prod.mk.inj h
    rfl

section Machine

variable {exec : ArchState → ArchState} {fuel : ℕ} {b : NativeBackend Machine} {addr : U64}

/-- The backend with a breakpoint set. -/
def withBreakpoint (b : NativeBackend Machine) (addr : U64) : NativeBackend Machine :=
  { b with
    debuggee := b.debuggee.withMem (Function.update b.debuggee.arch.mem addr kSoftwareBpOpcode)
    swBpOrig := b.swBpOrig.insert addr (b.debuggee.arch.mem addr) }

theorem set_machine (h : b.attached = true) (size : ℤ) :
    (setBreakpoint (Machine.debuggee exec fuel) .softwareExec addr size).outcome b =
      (.ok (), withBreakpoint b addr) :=
  setBreakpoint_software_eq_ok_iff.mpr ⟨h, _, _, _, Machine.debuggee_readMemory_one addr,
    Machine.debuggee_writeMemory_one addr _, rfl⟩

/-- The backend with a breakpoint removed, with the byte saved for it. -/
def withoutBreakpoint (b : NativeBackend Machine) (addr : U64) (x : Byte) :
    NativeBackend Machine :=
  { b with
    debuggee := b.debuggee.withMem (Function.update b.debuggee.arch.mem addr x)
    swBpOrig := b.swBpOrig.erase addr }

theorem remove_machine (h : b.attached = true) {x : Byte} (hx : b.saved addr = some x) (size : ℤ) :
    (removeBreakpoint (Machine.debuggee exec fuel) .softwareExec addr size).outcome b =
      (.ok (), withoutBreakpoint b addr x) :=
  removeBreakpoint_software_eq_ok_iff.mpr
    ⟨h, _, _, hx, Machine.debuggee_writeMemory_one addr _, rfl⟩

end Machine

/-- A backend attached to a machine whose memory is all `NOP`. -/
def nopBackend : NativeBackend Machine :=
  { attached := true, debuggee := { arch := { ctx := {}, mem := fun _ => 0x90 } } }

/-- The breakpoint at the first `NOP`, set and removed again. -/
theorem restored_nop :
    (withoutBreakpoint (withBreakpoint nopBackend 0x1000) 0x1000 0x90).debuggee.arch.mem =
      nopBackend.debuggee.arch.mem := by
  have hset : Run (Machine.debuggee id 0) ShowsOwn nopBackend (withBreakpoint nopBackend 0x1000) :=
    .set 0x1000 1 .start (by decide) (set_machine rfl 1)
  have hremove := hset.remove 0x1000 1 (remove_machine rfl rfl 1) (.inl rfl)
  refine (hremove.restored (faithfulMemory_machine id 0) rfl).2 ?_
  apply Std.ExtTreeMap.ext_getElem?
  intro addr
  simp [withoutBreakpoint, withBreakpoint, nopBackend]

/-- A breakpoint that is set twice and removed once leaves its `0xCC` behind. -/
theorem not_restored_nop : ¬ ∀ (start b : NativeBackend Machine), start.swBpOrig = ∅ →
    Run (Machine.debuggee id 0) (fun _ _ => True) start b →
      ∀ addr, b.swBpOrig[addr]? = none →
        b.debuggee.arch.mem addr = start.debuggee.arch.mem addr := by
  intro hrestored
  have hset : Run (Machine.debuggee id 0) ShowsOwn nopBackend (withBreakpoint nopBackend 0x1000) :=
    .set 0x1000 1 .start (by decide) (set_machine rfl 1)
  have hagain : (setBreakpoint (Machine.debuggee id 0) .softwareExec 0x1000 1).outcome
      (withBreakpoint nopBackend 0x1000) =
        (.ok (), withBreakpoint (withBreakpoint nopBackend 0x1000) 0x1000) := set_machine rfl 1
  have hremove : (removeBreakpoint (Machine.debuggee id 0) .softwareExec 0x1000 1).outcome
      (withBreakpoint (withBreakpoint nopBackend 0x1000) 0x1000) =
        (.ok (), withoutBreakpoint (withBreakpoint (withBreakpoint nopBackend 0x1000) 0x1000)
          0x1000 0xCC) := remove_machine rfl rfl 1
  obtain ⟨hmissing, hresidue⟩ := set_twice_residue (faithfulMemory_machine id 0) rfl hset
    (by decide) hagain hremove
  have hfirst : Run (Machine.debuggee id 0) (fun _ _ => True) nopBackend
      (withBreakpoint nopBackend 0x1000) := .set 0x1000 1 .start trivial (set_machine rfl 1)
  have hrun := (hfirst.set 0x1000 1 trivial hagain).remove 0x1000 1 hremove (.inl rfl)
  exact hresidue (hrestored _ _ rfl hrun 0x1000 hmissing)

end Irida.NativeBackend
