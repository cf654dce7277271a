import Irida.Backend.Native
import Irida.Host.Machine
import Irida.Host.Process

/-!
# What a detach leaves behind

`detach` lets go of the debuggee and of nothing else: the planted bytes stay in the process, the
debug registers stay enabled, and the three tables are kept for the next process.  A table that
is not empty then gives away bytes of the old process as those of the new one.

So a process is left as it was exactly if the tables are empty by then, where the counter of
hardware slots never goes down again (`Sessions.noResidue_iff`).  This is about runs in which
breakpoints are set where the debuggee shows its own byte, and in which the program does not
overwrite the bytes that are saved for it.
-/

namespace Irida.NativeBackend

open Host

variable {δ : Type} {host : NativeDebuggee δ} {view : δ → View}

/-- The calls that breakpoints and execution are about. -/
inductive Operation
  /-- with the number of events that may arrive -/
  | attach (rounds : ℕ) (pid : U32)
  | detach
  | set (kind : Backend.BpKind) (addr : U64) (size : ℤ)
  | remove (kind : Backend.BpKind) (addr : U64) (size : ℤ)
  | cont
  | step
  | requestStop
  deriving DecidableEq

/-- The backend after an operation, if it returns. -/
def operate (host : NativeDebuggee δ) (b : NativeBackend δ) : Operation → Option (NativeBackend δ)
  | .attach rounds pid => (attach host rounds pid b).map Prod.snd
  | .detach => some ((detach host).outcome b).2
  | .set kind addr size => some ((setBreakpoint host kind addr size).outcome b).2
  | .remove kind addr size => some ((removeBreakpoint host kind addr size).outcome b).2
  | .cont => some ((cont host).outcome b).2
  | .step => some ((step host).outcome b).2
  | .requestStop => some ((requestStop host).outcome b).2

/-- What is reached by operations, each of which is as it should be. -/
inductive Sessions (host : NativeDebuggee δ)
    (proper : NativeBackend δ → Operation → NativeBackend δ → Prop) (start : NativeBackend δ) :
    NativeBackend δ → Prop
  | start : Sessions host proper start start
  | call (op : Operation) {b b' : NativeBackend δ} (h : Sessions host proper start b)
      (hproper : proper b op b') (hop : operate host b op = some b') :
      Sessions host proper start b'

/-- The tables are those of a new backend. -/
structure Fresh (b : NativeBackend δ) : Prop where
  swBpOrig : b.swBpOrig = ∅
  nextHwSlot : b.nextHwSlot = 0
  hwBpSlot : b.hwBpSlot = ∅

/-- Nothing of the backend is left in the process, and nothing of the process in the backend. -/
structure NoResidue (view : δ → View) (b : NativeBackend δ) : Prop where
  mem : (view b.debuggee).mem = (view b.debuggee).own
  enabled : (view b.debuggee).enabled = ∅
  fresh : Fresh b

/-- No software breakpoint is tracked, and no hardware breakpoint was ever tried. -/
def Cleared (b : NativeBackend δ) : Prop :=
  b.swBpOrig = ∅ ∧ b.nextHwSlot = 0

/-- A process is left or taken only with cleared tables, a software breakpoint is set where the
debuggee shows its own byte, and a program that runs does not overwrite the bytes that are saved
for it. -/
def Proper (view : δ → View) (b : NativeBackend δ) : Operation → NativeBackend δ → Prop
  | .attach _ _, _ => Cleared b
  | .detach, _ => Cleared b
  | .set .softwareExec addr _, _ =>
    b.attached = true → (view b.debuggee).mem addr = (view b.debuggee).own addr
  | .set _ _ _, _ => True
  | .remove _ _ _, _ => True
  | .cont, b' | .step, b' | .requestStop, b' =>
    ∀ a, b.saved a ≠ none → (view b'.debuggee).own a = (view b.debuggee).own a

/-- The table of an attached backend holds the program's own bytes, which the process shows
everywhere else; and debug registers are enabled only after the counter has gone up. -/
structure Tidy (view : δ → View) (b : NativeBackend δ) : Prop where
  attached : b.attached = true
  saved : ∀ {a x}, b.saved a = some x → (view b.debuggee).own a = x
  shown : ∀ {a}, b.saved a = none → (view b.debuggee).mem a = (view b.debuggee).own a
  nonneg : 0 ≤ b.nextHwSlot
  unused : b.nextHwSlot = 0 → b.hwBpSlot = ∅ ∧ (view b.debuggee).enabled = ∅

/-- The tables suit the process that they are for, if there is one. -/
def Suits (view : δ → View) (b : NativeBackend δ) : Prop :=
  Tidy view b ∨ b.attached = false ∧ Fresh b

/-! ## Calls that keep the tables -/

/-- The tables are as before, and the process is led on. -/
structure Ran (view : δ → View) (b b' : NativeBackend δ) : Prop where
  tables : b' = { b with debuggee := b'.debuggee }
  leadsTo : LeadsTo view (fun a => b.saved a ≠ none) b.debuggee b'.debuggee

section Ran

variable {α : Type} {b b' b'' : NativeBackend δ}

theorem Ran.saved (h : Ran view b b') : b'.saved = b.saved := by
  rw [h.tables]
  rfl

theorem Ran.attached (h : Ran view b b') : b'.attached = b.attached := by
  rw [h.tables]

instance (view : δ → View) : IsPreorder (NativeBackend δ) (Ran view) where
  refl b := ⟨rfl, refl b.debuggee⟩
  trans b b' b'' h h' := by
    refine ⟨?_, IsTrans.trans _ _ _ h.leadsTo (h.saved ▸ h'.leadsTo)⟩
    rw [h'.tables, h.tables]

theorem requireAttached_keeps (op : String) :
    Call.Keeps (Ran view) (requireAttached op : Call (NativeBackend δ) Unit) := by
  intro b
  by_cases hattached : b.attached = true
  · rw [requireAttached_outcome op hattached]
    exact refl b
  · rw [requireAttached_outcome_error op (eq_false_of_ne_true hattached)]
    exact refl b

theorem onDbg_keeps {x : Call δ α} (hx : ∀ tracked, Call.Keeps (LeadsTo view tracked) x) :
    Call.Keeps (Ran view) (onDbg x) :=
  fun b => ⟨rfl, hx _ b.debuggee⟩

/-- Stepping over a breakpoint writes only at its address. -/
theorem stepOver_keeps (hhost : Shown host view) {tracked : U64 → Prop} {address : U64}
    (haddress : tracked address) (original : Byte) :
    Call.Keeps (LeadsTo view tracked) (stepOver host address original) := by
  have hwrite : ∀ x, Call.Keeps (LeadsTo view tracked) (host.writeMemory address [x]) :=
    fun x d => (hhost.writeMemory address x d).leads haddress
  refine (Call.Keeps.primary host).bind fun tid => ?_
  refine ((hhost.readRegisters tid).leadsTo_of_eq tracked).bind fun block => ?_
  refine ((hhost.writeRegisters tid _).leadsTo_of_eq tracked).bind fun _ => ?_
  refine (hwrite original).bind fun _ => ?_
  refine (hhost.resumeSingleStep.leadsTo_of_runs tracked).bind fun _ => ?_
  exact ((hhost.waitEvent (-1)).leadsTo_of_runs tracked).bind fun _ => hwrite kSoftwareBpOpcode

theorem rearm_keeps (hhost : Shown host view) (event : DbgEvent) :
    Call.Keeps (Ran view) (rearm host event) := by
  intro b
  show Ran view b (rearm host event b).2
  unfold rearm
  split
  case h_1 original hkind hsaved =>
    have htracked : b.saved event.address ≠ none := by simp [NativeBackend.saved, hsaved]
    exact ⟨rfl, stepOver_keeps hhost htracked original b.debuggee⟩
  case h_2 => exact refl b

theorem cont_keeps (hhost : Shown host view) : Call.Keeps (Ran view) (cont host) := by
  refine (requireAttached_keeps _).bind fun _ => ?_
  refine (onDbg_keeps hhost.resume.leadsTo_of_runs).bind fun _ => ?_
  refine (onDbg_keeps (hhost.waitEvent (-1)).leadsTo_of_runs).bind fun event => ?_
  exact (rearm_keeps hhost event).bind fun _ => .pure _

theorem step_keeps (hhost : Shown host view) : Call.Keeps (Ran view) (step host) := by
  refine (requireAttached_keeps _).bind fun _ => ?_
  refine (onDbg_keeps hhost.resumeSingleStep.leadsTo_of_runs).bind fun _ => ?_
  exact (onDbg_keeps (hhost.waitEvent (-1)).leadsTo_of_runs).bind fun event => .pure _

theorem requestStop_keeps (hhost : Shown host view) :
    Call.Keeps (Ran view) (requestStop host) :=
  (requireAttached_keeps _).bind fun _ => onDbg_keeps hhost.requestStop.leadsTo_of_runs

/-- The tables still suit a process whose program has left the saved bytes alone. -/
theorem Tidy.ran (h : Tidy view b) (hran : Ran view b b')
    (hkept : ∀ a, b.saved a ≠ none → (view b'.debuggee).own a = (view b.debuggee).own a) :
    Tidy view b' where
  attached := hran.attached.trans h.attached
  saved {a x} hx := by
    rw [hran.saved] at hx
    rw [hkept a (by simp [hx]), h.saved hx]
  shown {a} hnone := by
    rw [hran.saved] at hnone
    exact hran.leadsTo.own a (not_not.mpr hnone) (h.shown hnone)
  nonneg := by
    rw [hran.tables]
    exact h.nonneg
  unused := by
    rw [hran.leadsTo.enabled, hran.tables]
    exact h.unused

end Ran

/-! ## Breakpoints -/

section Breakpoints

variable {b : NativeBackend δ}

theorem Tidy.write (h : Tidy view b) {b' : NativeBackend δ} {addr : U64}
    (hwrite : (view b.debuggee).Writes addr (view b'.debuggee))
    (hother : ∀ a, a ≠ addr → b'.saved a = b.saved a)
    (hsaved : ∀ x, b'.saved addr = some x → (view b.debuggee).own addr = x)
    (hshown : b'.saved addr = none →
      (view b'.debuggee).mem addr = (view b.debuggee).own addr)
    (htables : b'.attached = b.attached ∧ b'.nextHwSlot = b.nextHwSlot ∧
      b'.hwBpSlot = b.hwBpSlot) : Tidy view b' where
  attached := htables.1.trans h.attached
  saved {a x} hx := by
    rw [hwrite.own]
    -- at the address the tables say what was written, elsewhere nothing has changed
    by_cases haddr : a = addr
    · rw [haddr] at hx ⊢
      exact hsaved x hx
    · exact h.saved (hother a haddr ▸ hx)
  shown {a} hnone := by
    rw [hwrite.own]
    by_cases haddr : a = addr
    · rw [haddr] at hnone ⊢
      exact hshown hnone
    · rw [hwrite.mem a haddr]
      exact h.shown (hother a haddr ▸ hnone)
  nonneg := htables.2.1 ▸ h.nonneg
  unused := by
    rw [hwrite.enabled, htables.2.1, htables.2.2]
    exact h.unused

theorem Tidy.sets (h : Tidy view b) {b' : NativeBackend δ}
    (hsets : (view b.debuggee).Sets (view b'.debuggee)) (hattached : b'.attached = b.attached)
    (hsaved : b'.saved = b.saved) (hpos : 0 < b'.nextHwSlot) : Tidy view b' where
  attached := hattached.trans h.attached
  saved hx := by
    rw [hsets.own]
    exact h.saved (hsaved ▸ hx)
  shown hnone := by
    rw [hsets.mem, hsets.own]
    exact h.shown (hsaved ▸ hnone)
  nonneg := hpos.le
  unused hzero := absurd hzero hpos.ne'

theorem Tidy.of_view_eq (h : Tidy view b) {d : δ} (hview : view d = view b.debuggee) :
    Tidy view { b with debuggee := d } where
  attached := h.attached
  saved hx := by
    rw [hview]
    exact h.saved hx
  shown hnone := by
    rw [hview]
    exact h.shown hnone
  nonneg := h.nonneg
  unused := by
    rw [hview]
    exact h.unused

theorem Tidy.setSoftware (hhost : Shown host view) (h : Tidy view b) {addr : U64}
    (hown : (view b.debuggee).mem addr = (view b.debuggee).own addr) :
    Tidy view ((setSoftware host addr).outcome b).2 := by
  rcases setSoftware_cases host b addr with ⟨e, d, hread, hcall⟩ | ⟨bytes, d, hread, hcall⟩ <;>
    have hsame : view d = view b.debuggee := (hhost.readMemory addr 1).of_outcome hread
  · rw [hcall]
    exact h.of_view_eq hsame
  · obtain rfl := hhost.readMemory_one hread
    have hwrite : (view d).Writes addr (view _) := hhost.writeMemory addr kSoftwareBpOpcode d
    rw [hsame] at hwrite
    rw [hcall]
    -- the byte that was read is saved before it is overwritten, even if that then fails
    refine h.write hwrite (fun a ha => ?_) (fun x hx => ?_) (fun hnone => ?_) ⟨rfl, rfl, rfl⟩
    · exact (congrFun (saved_insert _ addr _) a).trans (Function.update_of_ne ha ..)
    · have hx := (congrFun (saved_insert _ addr _) addr).symm.trans hx
      rw [Function.update_self, Option.some.injEq] at hx
      exact hown.symm.trans hx
    · have hnone := (congrFun (saved_insert _ addr _) addr).symm.trans hnone
      simp at hnone

theorem Tidy.removeSoftware (hhost : Shown host view) (h : Tidy view b) (addr : U64) :
    Tidy view ((removeSoftware host addr).outcome b).2 := by
  rcases removeSoftware_cases host b addr with hcall | ⟨original, r, d, hsaved, hwritten, hcall⟩
  · rw [hcall]
    exact h
  · have hwrite := (hhost.writeMemory addr original).of_outcome hwritten
    rw [hcall]
    cases r with
    | error e =>
        exact h.write hwrite (fun a _ => rfl) (fun x hx => h.saved hx)
          (fun hnone => absurd (hsaved.symm.trans hnone) (by simp)) ⟨rfl, rfl, rfl⟩
    | ok _ =>
        refine h.write hwrite (fun a ha => ?_) (fun x hx => ?_) (fun _ => ?_) ⟨rfl, rfl, rfl⟩
        · exact (congrFun (saved_erase _ addr) a).trans (Function.update_of_ne ha ..)
        · have hx := (congrFun (saved_erase _ addr) addr).symm.trans hx
          simp at hx
        · exact (hhost.writeMemory_ok hwritten).trans (h.saved hsaved).symm

theorem Tidy.setHardware (hhost : Shown host view) (h : Tidy view b) (addr : U64) :
    Tidy view ((setHardware host addr).outcome b).2 := by
  rcases setHardware_cases host b addr with ⟨-, hcall⟩ | ⟨-, r, d, hset, hcall⟩
  · rw [hcall]
    exact h
  · rw [hcall]
    exact h.sets ((hhost.setHwExecBp b.nextHwSlot addr).of_outcome hset) rfl rfl
      (Int.lt_add_one_of_le h.nonneg)

theorem Tidy.removeHardware (hhost : Shown host view) (h : Tidy view b) (addr : U64) :
    Tidy view ((removeHardware host addr).outcome b).2 := by
  rcases removeHardware_cases host b addr with hcall | ⟨slot, r, d, hslot, hclear, hcall⟩
  · rw [hcall]
    exact h
  · have hpos : 0 < b.nextHwSlot := by
      refine lt_of_le_of_ne h.nonneg fun hzero => ?_
      simp [(h.unused hzero.symm).1] at hslot
    rw [hcall]
    exact h.sets ((hhost.clearHwBp slot).of_outcome hclear) rfl rfl hpos

end Breakpoints

/-! ## Attaching and detaching -/

section Attach

variable {b : NativeBackend δ}

theorem NoResidue.tidy (h : NoResidue view b) (hattached : b.attached = true) : Tidy view b where
  attached := hattached
  saved {a x} hx := by
    rw [saved_eq_none h.fresh.swBpOrig] at hx
    contradiction
  shown {a} _ := congrFun h.mem a
  nonneg := h.fresh.nextHwSlot.ge
  unused _ := ⟨h.fresh.hwBpSlot, h.enabled⟩

theorem NoResidue.ran (h : NoResidue view b) {b' : NativeBackend δ} (hran : Ran view b b') :
    NoResidue view b' where
  mem := by
    funext a
    exact hran.leadsTo.own a (not_not.mpr (saved_eq_none h.fresh.swBpOrig a)) (congrFun h.mem a)
  enabled := hran.leadsTo.enabled.trans h.enabled
  fresh := by
    rw [hran.tables]
    exact ⟨h.fresh.swBpOrig, h.fresh.nextHwSlot, h.fresh.hwBpSlot⟩

/-- The events that arrive during `attach` only run the program. -/
theorem drainEvents_leadsTo (hhost : Shown host view) (tracked : U64 → Prop) {r : Result Unit}
    {d' : δ} : ∀ {rounds : ℕ} {d : δ}, drainEvents host rounds d = some (r, d') →
      LeadsTo view tracked d d' := by
  intro rounds
  induction rounds with
  | zero =>
      intro d h
      cases h
  | succ rounds ih =>
      intro d h
      rw [drainEvents] at h
      rcases hwait : (host.waitEvent kAttachDrainTimeoutMs).outcome d with ⟨_ | event, d₁⟩ <;>
        rw [hwait] at h <;>
        have hwaited := ((hhost.waitEvent _).leadsTo_of_runs tracked).of_outcome hwait
      · obtain ⟨-, rfl⟩ := Prod.mk.inj (Option.some.inj h)
        exact hwaited
      · rcases hresume : host.resume.outcome d₁ with ⟨_ | ⟨⟩, d₂⟩ <;> simp only [hresume] at h <;>
          have hresumed := (hhost.resume.leadsTo_of_runs tracked).of_outcome hresume
        · obtain ⟨-, rfl⟩ := Prod.mk.inj (Option.some.inj h)
          exact IsTrans.trans _ _ _ hwaited hresumed
        · exact IsTrans.trans _ _ _ (IsTrans.trans _ _ _ hwaited hresumed) (ih h)

/-- An `attach` takes a backend with new tables to a process in which nothing is left, or changes
nothing. -/
theorem attach_cases (hhost : Shown host view) (hfresh : Fresh b) {rounds : ℕ} {pid : U32}
    {r : Result Unit} {b' : NativeBackend δ} (h : attach host rounds pid b = some (r, b')) :
    (b'.attached = true ∧ NoResidue view b') ∨
      ∃ d, view d = view b.debuggee ∧ b' = { b with debuggee := d } := by
  rw [attach] at h
  rcases hattach : (host.attach pid).outcome b.debuggee with ⟨e | ⟨⟩, d⟩ <;> rw [hattach] at h
  · obtain ⟨-, rfl⟩ := Prod.mk.inj (Option.some.inj h)
    exact Or.inr ⟨d, hhost.attach_error hattach, rfl⟩
  · obtain ⟨hmem, henabled⟩ := hhost.attach hattach
    have hnew : NoResidue view { b with attached := true, debuggee := d } :=
      ⟨hmem, henabled, hfresh.swBpOrig, hfresh.nextHwSlot, hfresh.hwBpSlot⟩
    -- the events of the attach run the program, and so does the last wait
    rcases hdrain : drainEvents host rounds d with _ | ⟨e | ⟨⟩, d₁⟩ <;> simp only [hdrain] at h
    · cases h
    · obtain ⟨-, rfl⟩ := Prod.mk.inj (Option.some.inj h)
      exact Or.inl ⟨rfl, hnew.ran ⟨rfl, drainEvents_leadsTo hhost _ hdrain⟩⟩
    · have hdrained : Ran view { b with attached := true, debuggee := d }
          { b with attached := true, debuggee := d₁ } :=
        ⟨rfl, drainEvents_leadsTo hhost _ hdrain⟩
      have hstop : Call.Keeps (Ran view) (do
          onDbg host.requestStop
          let _ ← onDbg (host.waitEvent (-1))) :=
        (onDbg_keeps hhost.requestStop.leadsTo_of_runs).bind fun _ =>
          (onDbg_keeps (hhost.waitEvent (-1)).leadsTo_of_runs).bind fun _ => .pure _
      have hran := IsTrans.trans _ _ _ hdrained (hstop.of_outcome (Option.some.inj h))
      exact Or.inl ⟨hran.attached, hnew.ran hran⟩

theorem detach_eq_ok (hhost : Shown host view) {b' : NativeBackend δ}
    (h : (detach host).outcome b = (.ok (), b')) :
    b.attached = true ∧ ∃ d, view d = view b.debuggee ∧
      b' = { b with attached := false, debuggee := d } := by
  obtain ⟨hattached, h⟩ := attached_of_eq_ok h
  obtain ⟨-, rfl⟩ := Prod.mk.inj h
  exact ⟨hattached, _, hhost.detach b.debuggee, rfl⟩

end Attach

/-! ## A run -/

section Runs

variable {start b b' : NativeBackend δ}

theorem Suits.fresh (h : Suits view b) (hcleared : Cleared b) : Fresh b := by
  rcases h with h | ⟨-, hfresh⟩
  · exact ⟨hcleared.1, hcleared.2, (h.unused hcleared.2).1⟩
  · exact hfresh

theorem Suits.of_view_eq (h : Suits view b) {d : δ} (hview : view d = view b.debuggee) :
    Suits view { b with debuggee := d } := by
  rcases h with h | ⟨hattached, hfresh⟩
  · exact Or.inl (h.of_view_eq hview)
  · exact Or.inr ⟨hattached, hfresh.swBpOrig, hfresh.nextHwSlot, hfresh.hwBpSlot⟩

theorem Suits.ran (h : Suits view b) (hran : Ran view b b')
    (hkept : ∀ a, b.saved a ≠ none → (view b'.debuggee).own a = (view b.debuggee).own a) :
    Suits view b' := by
  rcases h with h | ⟨hattached, hfresh⟩
  · exact Or.inl (h.ran hran hkept)
  · refine Or.inr ⟨hran.attached.trans hattached, ?_⟩
    rw [hran.tables]
    exact ⟨hfresh.swBpOrig, hfresh.nextHwSlot, hfresh.hwBpSlot⟩

theorem Suits.guarded (h : Suits view b) (op : String) {x : Call (NativeBackend δ) Unit}
    (hx : Tidy view b → Tidy view (x.outcome b).2) :
    Suits view ((requireAttached op >>= fun _ => x).outcome b).2 := by
  rcases h with h | ⟨hattached, hfresh⟩
  · rw [Call.outcome_bind_ok (requireAttached_outcome op h.attached)]
    exact Or.inl (hx h)
  · rw [Call.outcome_bind_error (requireAttached_outcome_error op hattached)]
    exact Or.inr ⟨hattached, hfresh⟩

theorem Suits.operate (hhost : Shown host view) (h : Suits view b) {op : Operation}
    (hproper : Proper view b op b') (hop : operate host b op = some b') : Suits view b' := by
  cases op with
  | attach rounds pid =>
      obtain ⟨⟨r, b₁⟩, hattach, rfl⟩ := Option.map_eq_some_iff.mp hop
      rcases attach_cases hhost (h.fresh hproper) hattach with ⟨hattached, hnew⟩ | ⟨d, hview, rfl⟩
      · exact Or.inl (hnew.tidy hattached)
      · exact h.of_view_eq hview
  | detach =>
      obtain rfl := Option.some.inj hop
      have hfresh := h.fresh hproper
      rcases h with h | ⟨hattached, -⟩
      · rw [NativeBackend.detach, Call.outcome_bind_ok (requireAttached_outcome _ h.attached)]
        exact Or.inr ⟨rfl, hfresh.swBpOrig, hfresh.nextHwSlot, hfresh.hwBpSlot⟩
      · rw [NativeBackend.detach,
          Call.outcome_bind_error (requireAttached_outcome_error _ hattached)]
        exact Or.inr ⟨hattached, hfresh⟩
  | set kind addr size =>
      obtain rfl := Option.some.inj hop
      refine h.guarded _ fun h => ?_
      cases kind with
      | softwareExec => exact h.setSoftware hhost (hproper h.attached)
      | hardwareExec => exact h.setHardware hhost addr
      | writeWatch | readWatch | accessWatch => exact h
  | remove kind addr size =>
      obtain rfl := Option.some.inj hop
      refine h.guarded _ fun h => ?_
      cases kind with
      | softwareExec => exact h.removeSoftware hhost addr
      | hardwareExec => exact h.removeHardware hhost addr
      | writeWatch | readWatch | accessWatch => exact h
  | cont =>
      obtain rfl := Option.some.inj hop
      exact h.ran (cont_keeps hhost b) hproper
  | step =>
      obtain rfl := Option.some.inj hop
      exact h.ran (step_keeps hhost b) hproper
  | requestStop =>
      obtain rfl := Option.some.inj hop
      exact h.ran (requestStop_keeps hhost b) hproper

/-- The tables always suit the process. -/
theorem Sessions.suits (hhost : Shown host view) (hattached : start.attached = false)
    (hfresh : Fresh start) (h : Sessions host (Proper view) start b) : Suits view b := by
  induction h with
  | start => exact Or.inr ⟨hattached, hfresh⟩
  | call op _ hproper hop ih => exact ih.operate hhost hproper hop

/-- **What a detach leaves behind.** In every run whose operations are as they should be, a detach
leaves nothing behind exactly if no software breakpoint is left by then and no hardware breakpoint
was ever tried. -/
theorem Sessions.noResidue_iff (hhost : Shown host view) (hattached : start.attached = false)
    (hfresh : Fresh start) (h : Sessions host (Proper view) start b)
    (hdetach : (detach host).outcome b = (.ok (), b')) :
    Tidy view b ∧ (NoResidue view b' ↔ Cleared b) := by
  obtain ⟨hb, d, hview, rfl⟩ := detach_eq_ok hhost hdetach
  have htidy : Tidy view b := by
    rcases h.suits hhost hattached hfresh with h | ⟨hnot, -⟩
    · exact h
    · rw [hb] at hnot
      contradiction
  refine ⟨htidy, fun hnone => ⟨hnone.fresh.swBpOrig, hnone.fresh.nextHwSlot⟩, ?_⟩
  rintro ⟨hempty, hzero⟩
  obtain ⟨hslots, henabled⟩ := htidy.unused hzero
  refine ⟨funext fun a => ?_, ?_, hempty, hzero, hslots⟩
  · rw [hview]
    exact htidy.shown (saved_eq_none hempty a)
  · rw [hview]
    exact henabled

end Runs

/-! ## A process that does not run -/

/-- A process whose memory is all `NOP`. -/
def nops : View where
  mem _ := 0x90
  own _ := 0x90
  enabled := ∅

/-- A debuggee whose program never executes an instruction. -/
def frozen : NativeDebuggee View where
  attach _ _ := (.ok (), nops)
  detach v := (.ok (), v)
  waitEvent timeout v :=
    if timeout < 0 then (.ok { kind := .breakpoint }, v)
    else (.error "WaitForDebugEvent failed", v)
  resume v := (.ok (), v)
  resumeSingleStep v := (.ok (), v)
  requestStop v := (.ok (), v)
  readRegisters _ v := (.ok (List.replicate kRegBlockSize 0), v)
  writeRegisters _ _ v := (.ok (), v)
  readMemory addr len v :=
    (.ok ((List.range len.toNat).map fun i => v.mem (addr + BitVec.ofNat 64 i)), v)
  writeMemory addr data v := (.ok (), { v with mem := writeBytes v.mem addr data })
  setHwExecBp slot _ v := (.ok (), { v with enabled := insert slot v.enabled })
  clearHwBp slot v := (.ok (), { v with enabled := v.enabled.erase slot })
  primaryThread _ := 1

theorem shown_frozen : Shown frozen id where
  attach h := by
    obtain ⟨-, rfl⟩ := Prod.mk.inj h
    exact ⟨rfl, rfl⟩
  attach_error h := by cases (Prod.mk.inj h).1
  detach _ := rfl
  waitEvent timeout v := by
    show View.Runs v
      (if timeout < 0 then ((.ok { kind := .breakpoint }, v) : Result DbgEvent × View)
      else (.error "WaitForDebugEvent failed", v)).2
    split <;> exact ⟨fun _ => Or.inl ⟨rfl, rfl⟩, rfl⟩
  resume _ := ⟨fun _ => Or.inl ⟨rfl, rfl⟩, rfl⟩
  resumeSingleStep _ := ⟨fun _ => Or.inl ⟨rfl, rfl⟩, rfl⟩
  requestStop _ := ⟨fun _ => Or.inl ⟨rfl, rfl⟩, rfl⟩
  readRegisters _ _ := rfl
  writeRegisters _ _ _ := rfl
  readMemory _ _ _ := rfl
  readMemory_one {addr d d' bytes} h := by
    obtain ⟨hbytes, -⟩ := Prod.mk.inj h
    rw [← Except.ok.inj hbytes]
    simp
  writeMemory addr x v := ⟨fun a ha => Function.update_of_ne ha .., rfl, rfl⟩
  writeMemory_ok {addr x d d'} h := by
    obtain ⟨-, rfl⟩ := Prod.mk.inj h
    exact Function.update_self ..
  setHwExecBp _ _ _ := ⟨rfl, rfl⟩
  clearHwBp _ _ := ⟨rfl, rfl⟩

/-- A backend attached to the process. -/
def frozenBackend : NativeBackend View :=
  { attached := true, debuggee := nops }

/-- The backend with a software breakpoint at `0x1000`. -/
def frozenPlanted : NativeBackend View :=
  ((setBreakpoint frozen .softwareExec 0x1000 1).outcome frozenBackend).2

/-- The backend with the breakpoint removed again. -/
def frozenRestored : NativeBackend View :=
  ((removeBreakpoint frozen .softwareExec 0x1000 1).outcome frozenPlanted).2

/-- The process is attached to, and a breakpoint set and removed again. -/
theorem sessions_frozenRestored :
    Sessions frozen (Proper id) { debuggee := nops } frozenRestored :=
  .call (.remove .softwareExec 0x1000 1)
    (.call (.set .softwareExec 0x1000 1) (.call (.attach 1 0) .start ⟨rfl, rfl⟩ rfl)
      (fun _ => rfl) rfl) trivial rfl

/-- Then the process can be left. -/
theorem noResidue_frozen :
    Tidy id frozenRestored ∧
      (NoResidue id ((detach frozen).outcome frozenRestored).2 ↔ Cleared frozenRestored) :=
  sessions_frozenRestored.noResidue_iff shown_frozen rfl ⟨rfl, rfl, rfl⟩ (Call.outcome_of_fst rfl)

/-- In general a detach leaves planted bytes behind: a process that is left with a breakpoint at
`0x1000` keeps the `0xCC` there. -/
theorem not_noResidue_frozen :
    ¬ ∀ (host : NativeDebuggee View) (view : View → View) (start b b' : NativeBackend View),
      Shown host view → start.attached = false → Fresh start →
      Sessions host (fun _ _ _ => True) start b → (detach host).outcome b = (.ok (), b') →
      NoResidue view b' := by
  intro h
  have hrun : Sessions frozen (fun _ _ _ => True) { debuggee := nops } frozenPlanted :=
    .call (.set .softwareExec 0x1000 1) (.call (.attach 1 0) .start trivial rfl) trivial rfl
  have hnone := h frozen id _ _ _ shown_frozen rfl ⟨rfl, rfl, rfl⟩ hrun (Call.outcome_of_fst rfl)
  have hbyte : (0xCC : Byte) = 0x90 := congrFun hnone.mem 0x1000
  exact absurd hbyte (by decide)

end Irida.NativeBackend
