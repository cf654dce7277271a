import Irida.Backend.Detach

/-!
# The breakpoint table when host calls fail

Any host call may fail, and has no effect then.  The table should still hold exactly the addresses
where the debuggee shows a planted byte, with the program's own bytes (`Consistent`).

Two operations write in more than one step.  `set_breakpoint` saves the byte before it writes the
`0xCC`, and keeps it if that fails; the stop path restores the byte, runs on and plants the `0xCC`
again, and leaves it out if one of these calls fails.  Both leave an address in the table that is
not planted (`not_consistent_set`, `not_consistent_cont`).  Everywhere else a failure is harmless:
in a run in which those calls succeed the table is consistent after every operation
(`Sessions.table_consistent`).
-/

namespace Irida.NativeBackend

open Host

variable {δ : Type} {host : NativeDebuggee δ} {view : δ → View} {code : Set U64}

/-- The saved bytes are the program's own, under planted ones, and everywhere else the process
shows its own. -/
structure Matches (saved : U64 → Option Byte) (v : View) : Prop where
  planted : ∀ {a x}, saved a = some x → v.mem a = kSoftwareBpOpcode ∧ v.own a = x
  shown : ∀ {a}, saved a = none → v.mem a = v.own a

/-- The table and the code bytes of the debuggee agree. -/
def Consistent (view : δ → View) (b : NativeBackend δ) : Prop :=
  Matches b.saved (view b.debuggee)

/-- The first part of stepping over: the original byte is restored. -/
def unplant (host : NativeDebuggee δ) (address : U64) (original : Byte) : Call δ Unit := do
  let tid ← host.primary
  let block ← host.readRegisters tid
  host.writeRegisters tid (writeRip block address)
  host.writeMemory address [original]

/-- The second part: the instruction is executed and the byte planted again. -/
def replant (host : NativeDebuggee δ) (address : U64) : Call δ Unit := do
  host.resumeSingleStep
  let _ ← host.waitEvent (-1)
  host.writeMemory address [kSoftwareBpOpcode]

theorem stepOver_eq (address : U64) (original : Byte) :
    stepOver host address original = (do
      unplant host address original
      replant host address) := by
  simp [stepOver, unplant, replant]

/-- Software breakpoints are set in the code, where none is tracked, and removed again, and the
program is continued. -/
def Once (code : Set U64) (b : NativeBackend δ) : Operation → Prop
  | .set .softwareExec addr _ => addr ∈ code ∧ b.saved addr = none
  | .remove .softwareExec _ _ | .cont => True
  | _ => False

/-- A byte that was read is replaced by the `0xCC`, and one that was restored after a stop as
well. -/
def Completes (host : NativeDebuggee δ) (b : NativeBackend δ) : Operation → Prop
  | .set _ addr _ => ∀ bytes d, (host.readMemory addr 1).outcome b.debuggee = (.ok bytes, d) →
      ∃ d', (host.writeMemory addr [kSoftwareBpOpcode]).outcome d = (.ok (), d')
  | .cont => ∀ event original d d' d'', host.resume.outcome b.debuggee = (.ok (), d) →
      (host.waitEvent (-1)).outcome d = (.ok event, d') → event.kind = .breakpoint →
      b.saved event.address = some original →
      (unplant host event.address original).outcome d' = (.ok (), d'') →
      ∃ d₁, (replant host event.address).outcome d'' = (.ok (), d₁)
  | _ => True

/-! ## What the calls do to a table -/

section Matches

variable {saved : U64 → Option Byte} {v v' : View} {addr : U64}

/-- The program has run and left the tracked bytes alone. -/
theorem Matches.passes (h : Matches saved v) (hpass : v.Passes code v')
    (hcode : ∀ a, saved a ≠ none → a ∈ code) : Matches saved v' where
  planted {a x} hx := by
    obtain ⟨hmem, hown⟩ := hpass.code a (hcode a (by simp [hx]))
    rw [hmem, hown]
    exact h.planted hx
  shown {a} hnone := by
    rcases hpass.runs.mem a with ⟨hmem, hown⟩ | hown
    · rw [hmem, hown]
      exact h.shown hnone
    · exact hown

theorem Matches.plant (h : Matches saved v) (hwrite : v.Writes addr v')
    (hmem : v'.mem addr = kSoftwareBpOpcode) :
    Matches (Function.update saved addr (some (v.own addr))) v' where
  planted {a x} hx := by
    rw [hwrite.own]
    by_cases haddr : a = addr
    · rw [haddr, Function.update_self, Option.some.injEq] at hx
      rw [haddr]
      exact ⟨hmem, hx⟩
    · rw [Function.update_of_ne haddr] at hx
      rw [hwrite.mem a haddr]
      exact h.planted hx
  shown {a} hx := by
    by_cases haddr : a = addr
    · rw [haddr, Function.update_self] at hx
      cases hx
    · rw [Function.update_of_ne haddr] at hx
      rw [hwrite.mem a haddr, hwrite.own]
      exact h.shown hx

theorem Matches.restore (h : Matches saved v) (hwrite : v.Writes addr v')
    (hmem : saved addr = some (v'.mem addr)) :
    Matches (Function.update saved addr none) v' where
  planted {a x} hx := by
    by_cases haddr : a = addr
    · rw [haddr, Function.update_self] at hx
      cases hx
    · rw [Function.update_of_ne haddr] at hx
      rw [hwrite.mem a haddr, hwrite.own]
      exact h.planted hx
  shown {a} hx := by
    rw [hwrite.own]
    by_cases haddr : a = addr
    · rw [haddr]
      exact (h.planted hmem).2.symm
    · rw [Function.update_of_ne haddr] at hx
      rw [hwrite.mem a haddr]
      exact h.shown hx

end Matches

/-! ## One operation -/

section Operations

variable {b b' : NativeBackend δ} {addr : U64}

theorem consistent_of_view_eq (h : Consistent view b) {d : δ} (hview : view d = view b.debuggee) :
    Consistent view { b with debuggee := d } := by
  unfold Consistent
  rw [hview]
  exact h

theorem consistent_of_saved {saved : U64 → Option Byte} (hsaved : b.saved = saved)
    (h : Matches saved (view b.debuggee)) : Consistent view b := by
  rw [Consistent, hsaved]
  exact h

theorem Consistent.setSoftware (hhost : FailsCleanly host view code) (h : Consistent view b)
    (hnone : b.saved addr = none) {size : ℤ}
    (hcompletes : Completes host b (.set .softwareExec addr size)) :
    Consistent view ((setSoftware host addr).outcome b).2 := by
  rcases setSoftware_cases host b addr with ⟨e, d, hread, hcall⟩ | ⟨bytes, d, hread, hcall⟩ <;>
    have hsame : view d = view b.debuggee := (hhost.readMemory addr 1).of_outcome hread
  · rw [hcall]
    exact consistent_of_view_eq h hsame
  · obtain ⟨d', hok⟩ := hcompletes bytes d hread
    obtain rfl := hhost.readMemory_one hread
    have hwrite := (hhost.writeMemory addr kSoftwareBpOpcode).of_outcome hok
    rw [hsame] at hwrite
    rw [hcall, hok, List.headD_cons, h.shown hnone]
    apply consistent_of_saved (saved_insert { b with debuggee := d' } addr _)
    exact h.plant hwrite (hhost.writeMemory_ok hok)

theorem Consistent.removeSoftware (hhost : FailsCleanly host view code) (h : Consistent view b)
    (addr : U64) : Consistent view ((removeSoftware host addr).outcome b).2 := by
  rcases removeSoftware_cases host b addr with hcall | ⟨original, r, d, hsaved, hwritten, hcall⟩
  · rw [hcall]
    exact h
  · rw [hcall]
    cases r with
    | error e =>
        -- the byte is still planted, and the address still tracked
        exact consistent_of_view_eq h (hhost.writeMemory_error hwritten)
    | ok _ =>
        apply consistent_of_saved (saved_erase { b with debuggee := d } addr)
        apply h.restore ((hhost.writeMemory addr original).of_outcome hwritten)
        exact hsaved.trans (congrArg some (hhost.writeMemory_ok hwritten).symm)

/-! ## Stepping over -/

theorem unplant_cases (hhost : FailsCleanly host view code) {address : U64} {original : Byte}
    {r : Result Unit} {d d' : δ} (h : (unplant host address original).outcome d = (r, d')) :
    (∃ e, r = .error e ∧ view d' = view d) ∨
      r = .ok () ∧ (view d).Writes address (view d') ∧ (view d').mem address = original := by
  rw [unplant, Call.outcome_bind_ok (Call.outcome_primary host d)] at h
  rcases hread : (host.readRegisters (host.primaryThread d)).outcome d with ⟨e | block, d₁⟩ <;>
    have hsame : view d₁ = view d := (hhost.readRegisters _).of_outcome hread
  · rw [Call.outcome_bind_error hread] at h
    obtain ⟨rfl, rfl⟩ := Prod.mk.inj h
    exact Or.inl ⟨e, rfl, hsame⟩
  rw [Call.outcome_bind_ok hread] at h
  rcases hset :
      (host.writeRegisters (host.primaryThread d) (writeRip block address)).outcome d₁ with
    ⟨e | ⟨⟩, d₂⟩ <;>
    have hsame₂ : view d₂ = view d := ((hhost.writeRegisters _ _).of_outcome hset).trans hsame
  · rw [Call.outcome_bind_error hset] at h
    obtain ⟨rfl, rfl⟩ := Prod.mk.inj h
    exact Or.inl ⟨e, rfl, hsame₂⟩
  rw [Call.outcome_bind_ok hset] at h
  cases r with
  | error e => exact Or.inl ⟨e, rfl, (hhost.writeMemory_error h).trans hsame₂⟩
  | ok _ =>
      have hwrite := (hhost.writeMemory address original).of_outcome h
      rw [hsame₂] at hwrite
      exact Or.inr ⟨rfl, hwrite, hhost.writeMemory_ok h⟩

theorem replant_cases (hhost : FailsCleanly host view code) {address : U64} {r : Result Unit}
    {d d' : δ} (h : (replant host address).outcome d = (r, d')) :
    (∃ e, r = .error e ∧ PassesTo view code d d') ∨
      r = .ok () ∧ ∃ d₁, PassesTo view code d d₁ ∧ (view d₁).Writes address (view d') ∧
        (view d').mem address = kSoftwareBpOpcode := by
  rw [replant] at h
  rcases hstep : host.resumeSingleStep.outcome d with ⟨e | ⟨⟩, d₁⟩ <;>
    have hpass := hhost.resumeSingleStep_code.of_outcome hstep
  · rw [Call.outcome_bind_error hstep] at h
    obtain ⟨rfl, rfl⟩ := Prod.mk.inj h
    exact Or.inl ⟨e, rfl, hpass⟩
  rw [Call.outcome_bind_ok hstep] at h
  rcases hwait : (host.waitEvent (-1)).outcome d₁ with ⟨e | event, d₂⟩ <;>
    have hpass₂ := hpass.trans ((hhost.waitEvent_code (-1)).of_outcome hwait)
  · rw [Call.outcome_bind_error hwait] at h
    obtain ⟨rfl, rfl⟩ := Prod.mk.inj h
    exact Or.inl ⟨e, rfl, hpass₂⟩
  rw [Call.outcome_bind_ok hwait] at h
  -- only the write is left, which has no effect if it fails
  cases r with
  | error e =>
      refine Or.inl ⟨e, rfl, ?_⟩
      rw [PassesTo, hhost.writeMemory_error h]
      exact hpass₂
  | ok _ =>
      exact Or.inr ⟨rfl, d₂, hpass₂, (hhost.writeMemory address _).of_outcome h,
        hhost.writeMemory_ok h⟩

/-- A `cont` runs the program, and steps over a breakpoint if it stops at one. -/
theorem cont_cases (hhost : FailsCleanly host view code) (b : NativeBackend δ) :
    (∃ d, PassesTo view code b.debuggee d ∧ ((cont host).outcome b).2 = { b with debuggee := d }) ∨
      ∃ event original d d', host.resume.outcome b.debuggee = (.ok (), d) ∧
        (host.waitEvent (-1)).outcome d = (.ok event, d') ∧ PassesTo view code b.debuggee d' ∧
        event.kind = .breakpoint ∧ b.saved event.address = some original ∧
        ((cont host).outcome b).2 =
          { b with debuggee := ((stepOver host event.address original).outcome d').2 } := by
  by_cases hattached : b.attached = true
  swap
  · rw [cont, Call.outcome_bind_error
      (requireAttached_outcome_error _ (eq_false_of_ne_true hattached))]
    exact Or.inl ⟨b.debuggee, refl _, rfl⟩
  rcases hresume : host.resume.outcome b.debuggee with ⟨e | ⟨⟩, d⟩ <;>
    have hpass := hhost.resume_code.of_outcome hresume
  · rw [cont_outcome_error hattached hresume]
    exact Or.inl ⟨d, hpass, rfl⟩
  rcases hwait : (host.waitEvent (-1)).outcome d with ⟨e | event, d'⟩ <;>
    have hpass' := hpass.trans ((hhost.waitEvent_code (-1)).of_outcome hwait)
  · rw [cont_outcome_waiting hattached hresume hwait]
    exact Or.inl ⟨d', hpass', rfl⟩
  rw [cont_outcome hattached hresume hwait]
  -- only a stop at a planted address is stepped over
  by_cases hplanted : event.kind = .breakpoint ∧ b.saved event.address ≠ none
  · obtain ⟨hkind, hsaved⟩ := hplanted
    obtain ⟨original, hsaved⟩ := Option.ne_none_iff_exists'.mp hsaved
    refine Or.inr ⟨event, original, d, d', rfl, hwait, hpass', hkind, hsaved, ?_⟩
    rw [translateStopAndRearm_state, rearm_planted (b := { b with debuggee := d' }) hkind hsaved]
    rfl
  · rw [not_and_or, not_not] at hplanted
    exact Or.inl ⟨d', hpass', translateStopAndRearm_unplanted hplanted⟩

theorem Consistent.cont (hhost : FailsCleanly host view code) (h : Consistent view b)
    (hcode : ∀ a, b.saved a ≠ none → a ∈ code) (hcompletes : Completes host b .cont) :
    Consistent view ((cont host).outcome b).2 := by
  rcases cont_cases hhost b with ⟨d, hpass, hcall⟩ |
    ⟨event, original, d, d', hresume, hwait, hpass, hkind, hsaved, hcall⟩
  · rw [hcall]
    exact h.passes hpass hcode
  have hstopped : Matches b.saved (view d') := h.passes hpass hcode
  have haddress : event.address ∈ code := hcode _ (by simp [hsaved])
  rw [hcall, stepOver_eq]
  rcases hfirst : (unplant host event.address original).outcome d' with ⟨r, d₁⟩
  rcases unplant_cases hhost hfirst with ⟨e, rfl, hsame⟩ | ⟨rfl, hwrite, hmem⟩
  · -- a failure up to here leaves the `0xCC` where it is
    rw [Call.outcome_bind_error hfirst]
    show Matches b.saved (view d₁)
    rwa [hsame]
  obtain ⟨d₂, hsecond⟩ := hcompletes event original d d' d₁ hresume hwait hkind hsaved hfirst
  rw [Call.outcome_bind_ok hfirst, hsecond]
  obtain ⟨e, herr, -⟩ | ⟨-, d₃, hran, hplant, hplanted⟩ := replant_cases hhost hsecond
  · cases herr
  -- while the instruction runs, the address is as one that is not tracked
  have hrestored := hstopped.restore hwrite (hsaved.trans (congrArg some hmem.symm))
  have huntracked : ∀ a, Function.update b.saved event.address none a ≠ none → a ∈ code := by
    intro a ha
    by_cases heq : a = event.address
    · exact heq ▸ haddress
    · rw [Function.update_of_ne heq] at ha
      exact hcode a ha
  have hagain := (hrestored.passes hran huntracked).plant hplant hplanted
  have hown : (view d₃).own event.address = original := by
    calc (view d₃).own event.address
        = (view d₁).own event.address := (hran.code _ haddress).2
      _ = (view d').own event.address := by rw [hwrite.own]
      _ = original := (hstopped.planted hsaved).2
  rw [Function.update_idem, hown, ← hsaved, Function.update_eq_self] at hagain
  exact hagain

end Operations

/-! ## A run -/

/-- The table is consistent, and the tracked addresses are in the code. -/
structure Intact (view : δ → View) (code : Set U64) (b : NativeBackend δ) : Prop where
  consistent : Consistent view b
  tracked : ∀ a, b.saved a ≠ none → a ∈ code

section Runs

variable {start b b' : NativeBackend δ}

theorem Intact.setSoftware (hhost : FailsCleanly host view code) (h : Intact view code b)
    {addr : U64} {size : ℤ} (hcode : addr ∈ code) (hnone : b.saved addr = none)
    (hcompletes : Completes host b (.set .softwareExec addr size)) :
    Intact view code ((setSoftware host addr).outcome b).2 where
  consistent := h.consistent.setSoftware hhost hnone hcompletes
  tracked a ha := by
    rcases setSoftware_cases host b addr with ⟨e, d, -, hcall⟩ | ⟨bytes, d, -, hcall⟩
    · rw [hcall] at ha
      exact h.tracked a ha
    · rw [hcall] at ha
      by_cases heq : a = addr
      · exact heq ▸ hcode
      · apply h.tracked a
        have hsame := congrFun (saved_insert b addr (bytes.headD 0)) a
        rw [Function.update_of_ne heq] at hsame
        exact hsame ▸ ha

theorem Intact.removeSoftware (hhost : FailsCleanly host view code) (h : Intact view code b)
    (addr : U64) : Intact view code ((removeSoftware host addr).outcome b).2 where
  consistent := h.consistent.removeSoftware hhost addr
  tracked a ha := by
    apply h.tracked a
    rcases removeSoftware_cases host b addr with hcall | ⟨original, r, d, -, -, hcall⟩
    · rw [hcall] at ha
      exact ha
    cases r with
    | error e =>
        rw [hcall] at ha
        exact ha
    | ok _ =>
        rw [hcall] at ha
        have hsame := congrFun (saved_erase b addr) a
        by_cases heq : a = addr
        · rw [heq, Function.update_self] at hsame
          exact absurd hsame (heq ▸ ha)
        · rw [Function.update_of_ne heq] at hsame
          exact hsame ▸ ha

theorem Intact.cont (hhost : FailsCleanly host view code) (h : Intact view code b)
    (hcompletes : Completes host b .cont) : Intact view code ((cont host).outcome b).2 where
  consistent := h.consistent.cont hhost h.tracked hcompletes
  tracked a ha := by
    have hran : Ran view b ((NativeBackend.cont host).outcome b).2 := cont_keeps hhost.toShown b
    rw [hran.saved] at ha
    exact h.tracked a ha

theorem Intact.guarded (h : Intact view code b) (op : String) {x : Call (NativeBackend δ) Unit}
    (hx : Intact view code (x.outcome b).2) :
    Intact view code ((requireAttached op >>= fun _ => x).outcome b).2 := by
  by_cases hattached : b.attached = true
  · rw [Call.outcome_bind_ok (requireAttached_outcome op hattached)]
    exact hx
  · rw [Call.outcome_bind_error
      (requireAttached_outcome_error op (eq_false_of_ne_true hattached))]
    exact h

theorem Intact.operate (hhost : FailsCleanly host view code) (h : Intact view code b)
    {op : Operation} (honce : Once code b op) (hcompletes : Completes host b op)
    (hop : operate host b op = some b') : Intact view code b' := by
  cases op with
  | set kind addr size =>
      cases kind with
      | softwareExec =>
          obtain rfl := Option.some.inj hop
          exact h.guarded _ (h.setSoftware hhost honce.1 honce.2 hcompletes)
      | _ => exact honce.elim
  | remove kind addr size =>
      cases kind with
      | softwareExec =>
          obtain rfl := Option.some.inj hop
          exact h.guarded _ (h.removeSoftware hhost addr)
      | _ => exact honce.elim
  | cont =>
      obtain rfl := Option.some.inj hop
      exact h.cont hhost hcompletes
  | _ => exact honce.elim

/-- **The table stays consistent** in every run in which a byte that was read is replaced by the
`0xCC`, and one that was restored after a stop as well; any other host call may fail. -/
theorem Sessions.table_consistent (hhost : FailsCleanly host view code)
    (hempty : start.swBpOrig = ∅) (hown : (view start.debuggee).mem = (view start.debuggee).own)
    (h : Sessions host (fun b op _ => Once code b op ∧ Completes host b op) start b) :
    Consistent view b := by
  have hintact : Intact view code b := by
    induction h with
    | start =>
        have hnone := saved_eq_none hempty
        refine ⟨⟨fun hx => ?_, fun _ => congrFun hown _⟩, fun a ha => absurd (hnone a) ha⟩
        rw [hnone] at hx
        cases hx
    | call op _ hproper hop ih => exact ih.operate hhost hproper.1 hproper.2 hop
  exact hintact.consistent

/-! ## Failures that matter -/

theorem not_consistent_of_mem_ne {a : U64} (hsaved : b.saved a ≠ none)
    (hmem : (view b.debuggee).mem a ≠ kSoftwareBpOpcode) : ¬ Consistent view b := by
  intro h
  obtain ⟨x, hx⟩ := Option.ne_none_iff_exists'.mp hsaved
  exact hmem (h.planted hx).1

/-- The byte that was read is saved, and then not replaced. -/
theorem not_consistent_set (hhost : FailsCleanly host view code) (h : Consistent view b)
    {addr : U64} {size : ℤ} (hnone : b.saved addr = none)
    (hbyte : (view b.debuggee).own addr ≠ kSoftwareBpOpcode)
    (hfails : ¬ Completes host b (.set .softwareExec addr size)) :
    ¬ Consistent view ((setSoftware host addr).outcome b).2 := by
  unfold Completes at hfails
  push Not at hfails
  obtain ⟨bytes, d, hread, hfails⟩ := hfails
  have hsame : view d = view b.debuggee := (hhost.readMemory addr 1).of_outcome hread
  rcases hwrite : (host.writeMemory addr [kSoftwareBpOpcode]).outcome d with ⟨e | ⟨⟩, d'⟩
  swap
  · exact absurd hwrite (hfails d')
  rcases setSoftware_cases host b addr with ⟨e, d₁, hread₁, -⟩ | ⟨bytes₁, d₁, hread₁, hcall⟩
  · cases hread.symm.trans hread₁
  obtain ⟨hbytes, rfl⟩ := Prod.mk.inj (hread.symm.trans hread₁)
  have htable := saved_insert { b with debuggee := d' } addr (bytes₁.headD 0)
  rw [hcall, hwrite]
  apply not_consistent_of_mem_ne (a := addr)
  · rw [htable, Function.update_self]
    simp
  · show (view d').mem addr ≠ _
    rw [hhost.writeMemory_error hwrite, hsame, h.shown hnone]
    exact hbyte

/-- The byte is restored after a stop, and then not planted again. -/
theorem not_consistent_cont (hhost : FailsCleanly host view code) (h : Intact view code b)
    (hattached : b.attached = true)
    (hbytes : ∀ a ∈ code, (view b.debuggee).own a ≠ kSoftwareBpOpcode)
    (hfails : ¬ Completes host b .cont) : ¬ Consistent view ((cont host).outcome b).2 := by
  unfold Completes at hfails
  push Not at hfails
  obtain ⟨event, original, d, d', d₁, hresume, hwait, hkind, hsaved, hfirst, hfails⟩ := hfails
  have haddress : event.address ∈ code := h.tracked _ (by simp [hsaved])
  have hstate : ((cont host).outcome b).2 =
      { b with debuggee := ((replant host event.address).outcome d₁).2 } := by
    rw [cont_outcome hattached hresume hwait, translateStopAndRearm_state,
      rearm_planted (b := { b with debuggee := d' }) hkind hsaved, stepOver_eq, onDbg_outcome,
      Call.outcome_bind_ok hfirst]
  rcases hsecond : (replant host event.address).outcome d₁ with ⟨r, d₂⟩
  rcases replant_cases hhost hsecond with ⟨e, -, hran⟩ | ⟨rfl, -⟩
  swap
  · exact absurd hsecond (hfails d₂)
  -- the byte shown is the restored one, which the rest of the call has not replaced
  rcases unplant_cases hhost hfirst with ⟨e, herr, -⟩ | ⟨-, -, hmem⟩
  · cases herr
  rw [hstate, hsecond]
  apply not_consistent_of_mem_ne (a := event.address)
  · show b.saved event.address ≠ none
    simp [hsaved]
  · show (view d₂).mem event.address ≠ _
    rw [(hran.code _ haddress).1, hmem, ← (h.consistent.planted hsaved).2]
    exact hbytes _ haddress

end Runs

/-! ## A process that cannot always be written -/

/-- A debuggee whose program never executes an instruction, and in whose memory only such data are
written that `writable` allows. -/
def frozenMemory (writable : Bytes → Bool) : NativeDebuggee View :=
  { frozen with
    writeMemory := fun addr data v =>
      if writable data then (.ok (), { v with mem := writeBytes v.mem addr data })
      else (.error "WriteProcessMemory failed", v) }

theorem failsCleanly_frozen (writable : Bytes → Bool) :
    FailsCleanly (frozenMemory writable) id Set.univ where
  attach {pid d d'} h := @Shown.attach _ _ _ shown_frozen pid d d' h
  attach_error {pid d d' e} h := @Shown.attach_error _ _ _ shown_frozen pid d d' e h
  detach := shown_frozen.detach
  waitEvent := shown_frozen.waitEvent
  resume := shown_frozen.resume
  resumeSingleStep := shown_frozen.resumeSingleStep
  requestStop := shown_frozen.requestStop
  readRegisters := shown_frozen.readRegisters
  writeRegisters := shown_frozen.writeRegisters
  readMemory := shown_frozen.readMemory
  readMemory_one := shown_frozen.readMemory_one
  writeMemory addr x v := by
    show v.Writes addr
      (if writable [x] then ((.ok (), { v with mem := writeBytes v.mem addr [x] }) :
        Result Unit × View) else (.error "WriteProcessMemory failed", v)).2
    split
    · exact shown_frozen.writeMemory addr x v
    · exact ⟨fun _ _ => rfl, rfl, rfl⟩
  writeMemory_ok {addr x d d'} h := by
    have hwrite : (if writable [x] then ((.ok (), { d with mem := writeBytes d.mem addr [x] }) :
        Result Unit × View) else (.error "WriteProcessMemory failed", d)) = (.ok (), d') := h
    split at hwrite
    · exact shown_frozen.writeMemory_ok hwrite
    · cases hwrite
  setHwExecBp := shown_frozen.setHwExecBp
  clearHwBp := shown_frozen.clearHwBp
  waitEvent_code timeout v := by
    have hsame : ((frozen.waitEvent timeout).outcome v).2 = v := by
      show (if timeout < 0 then ((.ok { kind := .breakpoint }, v) : Result DbgEvent × View)
        else (.error "WaitForDebugEvent failed", v)).2 = v
      split <;> rfl
    rw [PassesTo, show ((frozenMemory writable).waitEvent timeout).outcome v =
      (frozen.waitEvent timeout).outcome v from rfl, hsame]
    exact .refl _ v
  resume_code v := .refl _ v
  resumeSingleStep_code v := .refl _ v
  writeMemory_error {addr x d d' e} h := by
    have hwrite : (if writable [x] then ((.ok (), { d with mem := writeBytes d.mem addr [x] }) :
        Result Unit × View) else (.error "WriteProcessMemory failed", d)) = (.error e, d') := h
    split at hwrite
    · cases hwrite
    · exact congrArg id (Prod.mk.inj hwrite).2.symm

/-- The backend with a breakpoint that was asked for at `0x1000`. -/
def frozenAsked (writable : Bytes → Bool) : NativeBackend View :=
  ((setBreakpoint (frozenMemory writable) .softwareExec 0x1000 1).outcome frozenBackend).2

/-- Only the `0xCC` can be written. -/
def plants (data : Bytes) : Bool :=
  data = [kSoftwareBpOpcode]

/-- The breakpoint that cannot be taken away again is still planted. -/
theorem consistent_frozen :
    ((removeBreakpoint (frozenMemory plants) .softwareExec 0x1000 1).outcome
        (frozenAsked plants)).1 = .error "WriteProcessMemory failed" ∧
      Consistent id ((removeBreakpoint (frozenMemory plants) .softwareExec 0x1000 1).outcome
        (frozenAsked plants)).2 := by
  have hrun : Sessions (frozenMemory plants)
      (fun b op _ => Once Set.univ b op ∧ Completes (frozenMemory plants) b op) frozenBackend
      ((removeBreakpoint (frozenMemory plants) .softwareExec 0x1000 1).outcome
        (frozenAsked plants)).2 := by
    refine .call (.remove .softwareExec 0x1000 1) ?_ ⟨trivial, trivial⟩ rfl
    exact .call (.set .softwareExec 0x1000 1) .start ⟨⟨trivial, rfl⟩, fun _ _ _ => ⟨_, rfl⟩⟩ rfl
  exact ⟨by decide, Sessions.table_consistent (failsCleanly_frozen plants) rfl rfl hrun⟩

/-- In general a breakpoint that cannot be written stays in the table: `0x1000` is tracked, and the
process still shows its `NOP` there. -/
theorem not_consistent_frozen :
    ¬ ∀ (host : NativeDebuggee View) (view : View → View) (code : Set U64)
      (start b : NativeBackend View), FailsCleanly host view code → start.swBpOrig = ∅ →
      (view start.debuggee).mem = (view start.debuggee).own →
      Sessions host (fun b op _ => Once code b op) start b → Consistent view b := by
  intro h
  have hrun : Sessions (frozenMemory fun _ => false) (fun b op _ => Once Set.univ b op)
      frozenBackend (frozenAsked fun _ => false) :=
    .call (.set .softwareExec 0x1000 1) .start ⟨trivial, rfl⟩ rfl
  have hconsistent :=
    h (frozenMemory fun _ => false) id Set.univ _ _ (failsCleanly_frozen _) rfl rfl hrun
  have hbyte := (hconsistent.planted (a := 0x1000) (x := 0x90) (by decide)).1
  exact absurd hbyte (by decide)

end Irida.NativeBackend
