import Irida.Backend.SoftwareBreakpoints
import Irida.Lib.Stutter

/-!
# Transparency of software breakpoints

The program behind the backend should go through the states that it goes through
on its own, whatever breakpoints are planted.  Its state is the machine's with the
saved bytes in the place of the planted ones (`programState`), and the states it
goes through are those in which the machine begins an instruction (`begunIn`).

A program that reads or writes its own code sees the planted bytes, so while a
breakpoint is planted an instruction may touch the byte there only if it is its own
first byte, and only to read it (`Oblivious`).

`cont` rewinds, restores, steps and plants again, so that the program does what it
does on its own; it begins the instruction at a breakpoint twice, in the same state.
`step` does none of this: at a planted address it executes the `0xCC` and leaves
`rip` one past it (`step_planted`).  Apart from that, and from a breakpoint that is
set twice, the program follows its own states (`Debugged.transparent`).
-/

namespace Irida.NativeBackend

open Host Patch Stutter

/-! ## Programs that do not look at planted bytes -/

section Oblivious

variable (exec : ArchState → ArchState)

/-- The instruction at `s` writes no byte at these addresses, and does not depend on
those of them that are not its own first byte. -/
structure ObliviousAt (planted : U64 → Prop) (s : ArchState) : Prop where
  keeps : ∀ a, planted a → (Machine.next exec s).mem a = s.mem a
  ignores : ∀ mem : U64 → Byte, (∀ a, ¬ planted a ∨ a = s.rip → mem a = s.mem a) →
    (Machine.next exec { s with mem := mem }).ctx = (Machine.next exec s).ctx ∧
      (∀ a, planted a → a ≠ s.rip → (Machine.next exec { s with mem := mem }).mem a = mem a) ∧
      ∀ a, ¬ planted a ∨ a = s.rip →
        (Machine.next exec { s with mem := mem }).mem a = (Machine.next exec s).mem a

/-- The next instructions of the program from `s`, up to its first stop if these
bytes are saved, touch no byte that is planted but their own first. -/
def Oblivious (saved : U64 → Option Byte) : ℕ → ArchState → Prop
  | 0, _ => True
  | fuel + 1, s =>
    ObliviousAt exec (fun a => saved a ≠ none) s ∧
      (saved s.rip = none → ¬ s.Traps → Oblivious saved fuel (Machine.next exec s))

theorem oblivious_of_obliviousAt {exec : ArchState → ArchState}
    (h : ∀ planted s, ObliviousAt exec planted s) (saved : U64 → Option Byte) (fuel : ℕ) :
    ∀ s, Oblivious exec saved fuel s := by
  induction fuel with
  | zero => exact fun _ => trivial
  | succ fuel ih => exact fun s => ⟨h _ s, fun _ _ => ih _⟩

end Oblivious

/-! ## The program's own states -/

/-- A state with the saved bytes in place. -/
def behind (saved : U64 → Option Byte) (s : ArchState) : ArchState :=
  { s with mem := original saved s.mem }

/-- The state of the program, without the planted bytes. -/
def programState (b : NativeBackend Machine) : ArchState :=
  behind b.saved b.debuggee.arch

/-- The states of the program in which an instruction was begun from `b` to `b'`. -/
def begunIn (b b' : NativeBackend Machine) : List ArchState :=
  (b'.debuggee.begun.drop b.debuggee.begun.length).map (behind b.saved)

/-- The calls of the backend that breakpoints and execution are about. -/
inductive Request
  | set (addr : U64) (size : ℤ)
  | remove (addr : U64) (size : ℤ)
  | step
  /-- with the number of instructions that the thread may run -/
  | cont (fuel : ℕ)
  deriving DecidableEq

/-- The backend after a call. -/
def perform (exec : ArchState → ArchState) (b : NativeBackend Machine) :
    Request → NativeBackend Machine
  | .set addr size =>
    ((setBreakpoint (Machine.debuggee exec 0) .softwareExec addr size).outcome b).2
  | .remove addr size =>
    ((removeBreakpoint (Machine.debuggee exec 0) .softwareExec addr size).outcome b).2
  | .step => ((step (Machine.debuggee exec 0)).outcome b).2
  | .cont fuel => ((cont (Machine.debuggee exec fuel)).outcome b).2

/-- Calls, made only where `allowed` holds, from an attached backend without
breakpoints, with the states that the program went through. -/
inductive Debugged (exec : ArchState → ArchState)
    (allowed : NativeBackend Machine → Request → Prop) (start : ArchState) :
    NativeBackend Machine → List ArchState → Prop
  | attached {b : NativeBackend Machine} (hattached : b.attached = true)
      (hempty : b.swBpOrig = ∅) (hstart : b.debuggee.arch = start) :
      Debugged exec allowed start b []
  | call (r : Request) {b : NativeBackend Machine} {history : List ArchState}
      (h : Debugged exec allowed start b history) (hallowed : allowed b r) :
      Debugged exec allowed start (perform exec b r) (history ++ begunIn b (perform exec b r))

/-- Breakpoints are set where they may be, a step begins at an instruction that the
debuggee shows, and no instruction that is executed touches planted bytes. -/
def Undisturbed (exec : ArchState → ArchState) (b : NativeBackend Machine) : Request → Prop
  | .set addr _ => ShowsOwn b addr
  | .remove _ _ => True
  | .step => ShowsOwn b b.debuggee.arch.rip ∧ Oblivious exec b.saved 1 (programState b)
  | .cont fuel => Oblivious exec b.saved fuel (programState b)

/-! ## One instruction -/

section Instruction

variable {exec : ArchState → ArchState} {saved : U64 → Option Byte} {s : ArchState}

/-- The instruction at `s`, executed with planted bytes around it, does what it does
without them. -/
theorem next_behind (hob : ObliviousAt exec (fun a => saved a ≠ none) s) {mem : U64 → Byte}
    (hmem : original saved mem = s.mem) (hown : mem s.rip = s.mem s.rip) :
    behind saved (Machine.next exec { s with mem := mem }) = Machine.next exec s ∧
      ∀ a, saved a ≠ none → (Machine.next exec { s with mem := mem }).mem a = mem a := by
  have hagree : ∀ a, ¬ saved a ≠ none ∨ a = s.rip → mem a = s.mem a := by
    rintro a (ha | rfl)
    · rw [← hmem, original_of_none (not_not.mp ha)]
    · exact hown
  obtain ⟨hctx, hplanted, hrest⟩ := hob.ignores mem hagree
  refine ⟨ArchState.ext hctx (funext fun a => ?_), ?_⟩
  · show original saved _ a = _
    cases ha : saved a with
    | none =>
        rw [original_of_none ha]
        exact hrest a (.inl (not_not.mpr ha))
    | some x =>
        -- the table shows the program its own byte, and the instruction leaves it there
        rw [original_of_some ha, hob.keeps a (by simp [ha]), ← hmem, original_of_some ha]
  · intro a ha
    by_cases hrip : a = s.rip
    · rw [hrest a (.inr hrip), hob.keeps a ha, hrip, hown]
    · exact hplanted a ha hrip

end Instruction

/-! ## The machine during a call -/

/-- The machine, `k` records after the start of a call, follows the program: the table
is the same during the whole call. -/
structure Mirrors (exec : ArchState → ArchState) (start : ArchState) (saved : U64 → Option Byte)
    (history : List ArchState) (k : ℕ) (m : Machine) : Prop where
  follows : Follows (Machine.next exec) start (history ++ (m.begun.drop k).map (behind saved))
    (behind saved m.arch)
  marked : Marked kSoftwareBpOpcode saved m.arch.mem
  le_length : k ≤ m.begun.length

section Mirrors

variable {exec : ArchState → ArchState} {start : ArchState} {saved : U64 → Option Byte}
  {history : List ArchState} {k : ℕ} {m : Machine}

theorem Mirrors.advance (h : Mirrors exec start saved history k m) {m' : Machine}
    {more : List ArchState} (hbegun : m'.begun = m.begun ++ more)
    (hfollows : Follows (Machine.next exec) start
      (history ++ (m.begun.drop k).map (behind saved) ++ more.map (behind saved))
      (behind saved m'.arch))
    (hmarked : Marked kSoftwareBpOpcode saved m'.arch.mem) :
    Mirrors exec start saved history k m' := by
  refine ⟨?_, hmarked, ?_⟩
  · rw [hbegun, List.drop_append_of_le_length h.le_length, List.map_append, ← List.append_assoc]
    exact hfollows
  · rw [hbegun, List.length_append]
    exact Nat.le_add_right_of_le h.le_length

theorem Mirrors.execute (h : Mirrors exec start saved history k m)
    (hob : ObliviousAt exec (fun a => saved a ≠ none) (behind saved m.arch))
    (hown : original saved m.arch.mem m.arch.rip = m.arch.mem m.arch.rip) (mode : RunMode) :
    Mirrors exec start saved history k (m.execute exec mode) ∧
      behind saved (m.execute exec mode).arch = Machine.next exec (behind saved m.arch) := by
  obtain ⟨hnext, hkept⟩ := next_behind hob rfl hown.symm
  have hafter : behind saved (m.execute exec mode).arch =
      Machine.next exec (behind saved m.arch) := hnext
  have hbegun : (m.execute exec mode).begun = m.begun ++ [m.arch] := rfl
  refine ⟨h.advance hbegun ?_ fun a ha => (hkept a ha).trans (h.marked a ha), hafter⟩
  rw [hafter]
  exact h.follows.step

/-- A free run ends before a trap, if it ends, and has followed the program up to it. -/
theorem Mirrors.runUntilTrap :
    ∀ (fuel : ℕ) {m : Machine} {r : Option DbgEvent} {m' : Machine},
      Mirrors exec start saved history k m → Oblivious exec saved fuel (behind saved m.arch) →
      m.runUntilTrap exec fuel = (r, m') →
      match r with
      | none => Mirrors exec start saved history k m'
      | some event => ∃ m₁, Mirrors exec start saved history k m₁ ∧
          ObliviousAt exec (fun a => saved a ≠ none) (behind saved m₁.arch) ∧ m₁.arch.Traps ∧
          event = Machine.stepEvent exec m₁.arch ∧ m' = m₁.execute exec .stopped := by
  intro fuel
  induction fuel with
  | zero =>
      intro m r m' h _ hrun
      obtain ⟨rfl, rfl⟩ := Prod.mk.inj hrun
      exact h
  | succ fuel ih =>
      intro m r m' h hob hrun
      obtain ⟨hat, hrest⟩ := hob
      rw [Machine.runUntilTrap] at hrun
      by_cases htraps : m.arch.Traps
      · rw [if_pos htraps] at hrun
        obtain ⟨rfl, rfl⟩ := Prod.mk.inj hrun
        exact ⟨m, h, hat, htraps, rfl, rfl⟩
      · rw [if_neg htraps] at hrun
        -- a planted byte would trap, so the program's own instruction is shown here
        have hnone : saved m.arch.rip = none := h.marked.saved_eq_none htraps
        have hown : original saved m.arch.mem m.arch.rip = m.arch.mem m.arch.rip :=
          original_of_none hnone
        obtain ⟨hnext, hafter⟩ := h.execute hat hown .running
        refine ih hnext ?_ hrun
        rw [hafter]
        refine hrest hnone fun hbehind => htraps ?_
        exact hown.symm.trans hbehind

end Mirrors

/-! ## Stepping over a breakpoint -/

section StepOver

variable {exec : ArchState → ArchState} {fuel : ℕ} {m : Machine}

theorem writeRip_contextToBlock (c : Context) (rip : U64) :
    writeRip (contextToBlock c) rip = contextToBlock (c.withRip rip) := by
  rw [writeRip, if_pos (by simp [kRipOffset, kRegBlockSize, kNumSlots])]
  exact LittleEndian.setSlot_block 8 c.slots rip.toNat (by simp [Context.slots])

/-- The state in which the instruction at `address` is stepped over. -/
def rewound (s : ArchState) (address : U64) (original : Byte) : ArchState :=
  { ctx := s.ctx.withRip address, mem := Function.update s.mem address original }

/-- A trap has only moved `rip`, so rewinding gives the state before it again, with another byte in
the place of the trap. -/
theorem rewound_execute (htraps : m.arch.Traps) (x : Byte) :
    rewound (m.execute exec .stopped).arch m.arch.rip x =
      { m.arch with mem := Function.update m.arch.mem m.arch.rip x } := by
  have hkeep : (m.execute exec .stopped).arch =
      { m.arch with ctx := m.arch.ctx.withRip (m.arch.rip + 1) } := Machine.next_of_traps htraps
  rw [rewound, hkeep, Context.withRip_withRip]
  rfl

/-- The machine after the instruction at `address` was stepped over. -/
def steppedOver (exec : ArchState → ArchState) (m : Machine) (address : U64) (original : Byte) :
    Machine :=
  let after := Machine.next exec (rewound m.arch address original)
  { arch := { after with mem := Function.update after.mem address kSoftwareBpOpcode }
    mode := .stopped
    begun := m.begun ++ [rewound m.arch address original] }

/-- What `stepOver` does to a machine that is stopped. -/
theorem stepOver_machine (h : m.mode = .stopped) (address : U64) (original : Byte) :
    (stepOver (Machine.debuggee exec fuel) address original).outcome m =
      (.ok (), steppedOver exec m address original) := by
  have hregisters := Context.withRip_rest m.arch.ctx address
  have hstopped : ((m.withCtx (m.arch.ctx.withRip address)).withMem
      (Function.update m.arch.mem address original)).mode = .stopped := h
  -- registers first, then the byte, so that the single step begins at `address`
  rw [stepOver, Call.outcome_bind_ok (Call.outcome_primary _ _),
    Call.outcome_bind_ok (Machine.debuggee_readRegisters _), writeRip_contextToBlock,
    Call.outcome_bind_ok (Machine.debuggee_writeRegisters _ _ hregisters),
    Call.outcome_bind_ok (Machine.debuggee_writeMemory_one _ _)]
  refine (Call.outcome_bind_ok (Machine.debuggee_resumeSingleStep hstopped) _).trans ?_
  rw [Call.outcome_bind_ok (Machine.debuggee_waitEvent_stepping _ rfl),
    Machine.debuggee_writeMemory_one]
  rfl

variable {start : ArchState} {saved : U64 → Option Byte} {history : List ArchState} {k : ℕ}

/-- The trap at a planted address, rewound and stepped over, is one instruction of the
program, which was begun twice. -/
theorem Mirrors.steppedOver (h : Mirrors exec start saved history k m)
    (hob : ObliviousAt exec (fun a => saved a ≠ none) (behind saved m.arch))
    (htraps : m.arch.Traps) {x : Byte} (hx : saved m.arch.rip = some x) :
    Mirrors exec start saved history k
      (steppedOver exec (m.execute exec .stopped) m.arch.rip x) := by
  have hrewound : rewound (m.execute exec .stopped).arch m.arch.rip x =
      { behind saved m.arch with mem := Function.update m.arch.mem m.arch.rip x } :=
    rewound_execute htraps x
  have htracked : saved m.arch.rip ≠ none := by simp [hx]
  have hsame : original saved (Function.update m.arch.mem m.arch.rip x) =
      (behind saved m.arch).mem := original_update_of_some htracked
  obtain ⟨hnext, hkept⟩ := next_behind hob hsame
    ((Function.update_self ..).trans (original_of_some hx).symm)
  rw [← hrewound] at hnext hkept
  have hbehind : behind saved (rewound (m.execute exec .stopped).arch m.arch.rip x) =
      behind saved m.arch := by
    rw [hrewound]
    exact ArchState.ext rfl hsame
  have hafter : behind saved (NativeBackend.steppedOver exec (m.execute exec .stopped)
      m.arch.rip x).arch = Machine.next exec (behind saved m.arch) := by
    rw [← hnext]
    exact ArchState.ext rfl (original_update_of_some htracked)
  have hbegun : (NativeBackend.steppedOver exec (m.execute exec .stopped) m.arch.rip x).begun =
      m.begun ++ [m.arch, rewound (m.execute exec .stopped).arch m.arch.rip x] := by
    simp [NativeBackend.steppedOver, Machine.execute]
  refine h.advance hbegun ?_ fun a ha => ?_
  · rw [hafter, List.map_cons, List.map_singleton, hbehind]
    -- begun at the trap and begun again: one state of the program, logged twice
    simpa using h.follows.step_again
  · show (Function.update _ m.arch.rip kSoftwareBpOpcode : U64 → Byte) a = _
    by_cases hrip : a = m.arch.rip
    · rw [hrip, Function.update_self]
    · rw [Function.update_of_ne hrip, hkept a ha, Function.update_of_ne hrip]
      exact h.marked a ha

end StepOver

/-! ## Calls on the machine -/

section Calls

variable {exec : ArchState → ArchState} {b : NativeBackend Machine}

theorem perform_step (hattached : b.attached = true) (hmode : b.debuggee.mode = .stopped) :
    perform exec b .step = { b with debuggee := b.debuggee.execute exec .stopped } :=
  congrArg Prod.snd (step_outcome hattached (Machine.debuggee_resumeSingleStep hmode)
    (Machine.debuggee_waitEvent_stepping (-1) rfl))

/-- A step at a planted address leaves `rip` one past it, whatever instruction is there. -/
theorem step_planted (hattached : b.attached = true) (hmode : b.debuggee.mode = .stopped)
    (hplanted : Planted (fun m => m.arch.mem) b)
    (h : b.saved b.debuggee.arch.rip ≠ none) :
    (perform exec b .step).debuggee.arch.rip = b.debuggee.arch.rip + 1 := by
  have htraps : b.debuggee.arch.Traps := hplanted _ h
  calc (perform exec b .step).debuggee.arch.rip
      = (Machine.next exec b.debuggee.arch).rip := by rw [perform_step hattached hmode]; rfl
    _ = b.debuggee.arch.rip + 1 := by rw [Machine.next_of_traps htraps]; rfl

theorem perform_step_error (hattached : b.attached = true) (hmode : b.debuggee.mode ≠ .stopped) :
    perform exec b .step = b :=
  congrArg Prod.snd (step_outcome_error hattached (Machine.debuggee_resumeSingleStep_error hmode))

theorem perform_cont_error (hattached : b.attached = true) (hmode : b.debuggee.mode ≠ .stopped)
    (fuel : ℕ) : perform exec b (.cont fuel) = b :=
  congrArg Prod.snd (cont_outcome_error hattached (Machine.debuggee_resume_error hmode))

theorem perform_cont_running (hattached : b.attached = true) (hmode : b.debuggee.mode = .stopped)
    {fuel : ℕ} {m : Machine}
    (hrun : (b.debuggee.withMode .running).runUntilTrap exec fuel = (none, m)) :
    perform exec b (.cont fuel) = { b with debuggee := m } :=
  congrArg Prod.snd (cont_outcome_waiting hattached (Machine.debuggee_resume hmode)
    (Machine.debuggee_waitEvent_running_none (-1) rfl hrun))

/-- The machine after a stop at a trap: what is planted there is stepped over. -/
def stoppedAt (exec : ArchState → ArchState) (saved : U64 → Option Byte) (m : Machine) : Machine :=
  match saved m.arch.rip with
  | none => m.execute exec .stopped
  | some original => steppedOver exec (m.execute exec .stopped) m.arch.rip original

/-- `cont` up to a trap. -/
theorem perform_cont_trap (hattached : b.attached = true) (hmode : b.debuggee.mode = .stopped)
    {fuel : ℕ} {m : Machine} (htraps : m.arch.Traps)
    (hrun : (b.debuggee.withMode .running).runUntilTrap exec fuel =
      (some (Machine.stepEvent exec m.arch), m.execute exec .stopped)) :
    perform exec b (.cont fuel) = { b with debuggee := stoppedAt exec b.saved m } := by
  have hcont := cont_outcome hattached (Machine.debuggee_resume hmode)
    (Machine.debuggee_waitEvent_running_some (-1) rfl hrun)
  obtain ⟨hkind, haddress⟩ := @Machine.stepEvent_of_traps exec _ htraps
  refine (congrArg Prod.snd hcont).trans ?_
  unfold stoppedAt
  cases hsaved : b.saved m.arch.rip with
  | none =>
      -- a trap of the program's own: nothing to rewind
      refine translateStopAndRearm_unplanted (.inr ?_)
      rw [haddress]
      exact hsaved
  | some original =>
      have hover : (stepOver (Machine.debuggee exec fuel) (Machine.stepEvent exec m.arch).address
          original).outcome (m.execute exec .stopped) =
            (.ok (), steppedOver exec (m.execute exec .stopped) m.arch.rip original) := by
        rw [haddress]
        exact stepOver_machine rfl _ _
      refine translateStopAndRearm_planted hkind ?_ hover
      rw [haddress]
      exact hsaved

end Calls

/-! ## A run -/

/-- The program follows its own states, and the table knows what is planted. -/
structure Transparent (exec : ArchState → ArchState) (start : ArchState)
    (b : NativeBackend Machine) (history : List ArchState) : Prop where
  attached : b.attached = true
  follows : Follows (Machine.next exec) start history (programState b)
  marked : Planted (fun m => m.arch.mem) b

section Runs

variable {exec : ArchState → ArchState} {start : ArchState} {b b' : NativeBackend Machine}
  {history : List ArchState}

theorem Transparent.mirrors (h : Transparent exec start b history) :
    Mirrors exec start b.saved history b.debuggee.begun.length b.debuggee := by
  refine ⟨?_, h.marked, Nat.le_refl _⟩
  rw [List.drop_length, List.map_nil, List.append_nil]
  exact h.follows

theorem Transparent.ran (h : Transparent exec start b history) {m : Machine}
    (hm : Mirrors exec start b.saved history b.debuggee.begun.length m)
    (hb : b' = { b with debuggee := m }) :
    Transparent exec start b' (history ++ begunIn b b') := by
  subst hb
  exact ⟨h.attached, hm.follows, hm.marked⟩

theorem Transparent.idle (h : Transparent exec start b history)
    (hattached : b'.attached = true) (hstate : programState b' = programState b)
    (hmarked : Planted (fun m => m.arch.mem) b') (hbegun : b'.debuggee.begun = b.debuggee.begun) :
    Transparent exec start b' (history ++ begunIn b b') := by
  have hnone : begunIn b b' = [] := by
    rw [begunIn, hbegun, List.drop_length, List.map_nil]
  refine ⟨hattached, ?_, hmarked⟩
  rw [hnone, List.append_nil, hstate]
  exact h.follows

theorem Transparent.set (h : Transparent exec start b history) {addr : U64} (size : ℤ)
    (hown : ShowsOwn b addr) :
    Transparent exec start (perform exec b (.set addr size))
      (history ++ begunIn b (perform exec b (.set addr size))) := by
  have hset : (setBreakpoint (Machine.debuggee exec 0) .softwareExec addr size).outcome b =
      (.ok (), withBreakpoint b addr) := set_machine h.attached size
  have hperform : perform exec b (.set addr size) = withBreakpoint b addr :=
    congrArg Prod.snd hset
  obtain ⟨hmemory, hmarked⟩ :=
    programMemory_set (faithfulMemory_machine exec 0) h.marked hown hset
  rw [hperform]
  exact h.idle h.attached (ArchState.ext rfl hmemory) hmarked rfl

theorem Transparent.remove (h : Transparent exec start b history) (addr : U64) (size : ℤ) :
    Transparent exec start (perform exec b (.remove addr size))
      (history ++ begunIn b (perform exec b (.remove addr size))) := by
  cases hx : b.saved addr with
  | none =>
      have hperform : perform exec b (.remove addr size) = b :=
        removeBreakpoint_software_missing hx
      rw [hperform]
      exact h.idle h.attached rfl h.marked rfl
  | some x =>
      have hremove : (removeBreakpoint (Machine.debuggee exec 0) .softwareExec addr size).outcome
          b = (.ok (), withoutBreakpoint b addr x) := remove_machine h.attached hx size
      have hperform : perform exec b (.remove addr size) = withoutBreakpoint b addr x :=
        congrArg Prod.snd hremove
      obtain ⟨hmemory, hmarked⟩ :=
        programMemory_remove (faithfulMemory_machine exec 0) h.marked hremove
      rw [hperform]
      exact h.idle h.attached (ArchState.ext rfl hmemory) hmarked rfl

theorem Transparent.step (h : Transparent exec start b history)
    (hown : ShowsOwn b b.debuggee.arch.rip) (hob : Oblivious exec b.saved 1 (programState b)) :
    Transparent exec start (perform exec b .step)
      (history ++ begunIn b (perform exec b .step)) := by
  by_cases hmode : b.debuggee.mode = .stopped
  · exact h.ran (h.mirrors.execute hob.1 (h.marked.original_eq hown) .stopped).1
      (perform_step h.attached hmode)
  · exact h.ran h.mirrors (perform_step_error h.attached hmode)

/-- The machine after a stop at a trap follows the program, whoever put the trap there. -/
theorem Mirrors.stoppedAt {saved : U64 → Option Byte} {k : ℕ} {m : Machine}
    (h : Mirrors exec start saved history k m)
    (hob : ObliviousAt exec (fun a => saved a ≠ none) (behind saved m.arch))
    (htraps : m.arch.Traps) : Mirrors exec start saved history k (stoppedAt exec saved m) := by
  unfold NativeBackend.stoppedAt
  cases hx : saved m.arch.rip with
  | none => exact (h.execute hob (original_of_none hx) .stopped).1
  | some x => exact h.steppedOver hob htraps hx

theorem Transparent.cont (h : Transparent exec start b history) {fuel : ℕ}
    (hob : Oblivious exec b.saved fuel (programState b)) :
    Transparent exec start (perform exec b (.cont fuel))
      (history ++ begunIn b (perform exec b (.cont fuel))) := by
  by_cases hmode : b.debuggee.mode = .stopped
  · have hresumed : Mirrors exec start b.saved history b.debuggee.begun.length
        (b.debuggee.withMode .running) :=
      ⟨h.mirrors.follows, h.mirrors.marked, h.mirrors.le_length⟩
    -- the thread is still running when its instructions are used up, or stops at a trap
    rcases hrun : (b.debuggee.withMode .running).runUntilTrap exec fuel with ⟨_ | event, m⟩
    · exact h.ran (Mirrors.runUntilTrap fuel hresumed hob hrun)
        (perform_cont_running h.attached hmode hrun)
    · obtain ⟨m₁, hm₁, hat, htraps, rfl, rfl⟩ := Mirrors.runUntilTrap fuel hresumed hob hrun
      exact h.ran (hm₁.stoppedAt hat htraps) (perform_cont_trap h.attached hmode htraps hrun)
  · exact h.ran h.mirrors (perform_cont_error h.attached hmode fuel)

theorem Debugged.invariant (h : Debugged exec (Undisturbed exec) start b history) :
    Transparent exec start b history := by
  induction h with
  | @attached b hattached hempty hstart =>
      have hsaved : b.saved = fun _ => none := funext (saved_eq_none hempty)
      refine ⟨hattached, ?_, fun a ha => absurd (congrFun hsaved a) ha⟩
      have hstate : programState b = start := by
        rw [programState, hsaved, ← hstart]
        rfl
      exact hstate ▸ Follows.refl _ _
  | call r _ hallowed ih =>
      cases r with
      | set addr size => exact ih.set size hallowed
      | remove addr size => exact ih.remove addr size
      | step => exact ih.step hallowed.1 hallowed.2
      | cont fuel => exact ih.cont hallowed

/-- **Software breakpoints are transparent.** The program goes through its own states
in every run in which breakpoints are set where they may be, no step begins at a
planted address, and no instruction looks at planted bytes. -/
theorem Debugged.transparent (h : Debugged exec (Undisturbed exec) start b history) :
    Follows (Machine.next exec) start history (programState b) :=
  h.invariant.follows

end Runs

/-! ## A program of two-byte instructions -/

/-- Every instruction takes two bytes and does nothing. -/
def strideTwo (s : ArchState) : ArchState :=
  { s with ctx := s.ctx.withRip (s.rip + 2) }

theorem strideTwo_obliviousAt (planted : U64 → Prop) (s : ArchState) :
    ObliviousAt strideTwo planted s := by
  have hkeeps : ∀ s a, (Machine.next strideTwo s).mem a = s.mem a := by
    intro s a
    by_cases htraps : s.Traps
    · rw [Machine.next_of_traps htraps]
    · rw [Machine.next_of_not_traps htraps]
      rfl
  refine ⟨fun a _ => hkeeps s a, fun mem hmem => ⟨?_, fun a _ _ => hkeeps _ a, fun a ha => ?_⟩⟩
  · have hrip : mem s.rip = s.mem s.rip := hmem s.rip (.inr rfl)
    have hsame : ({ s with mem := mem } : ArchState).Traps ↔ s.Traps := by
      show mem s.rip = _ ↔ s.mem s.rip = _
      rw [hrip]
    by_cases htraps : s.Traps
    · rw [Machine.next_of_traps htraps, Machine.next_of_traps (hsame.mpr htraps)]
      rfl
    · rw [Machine.next_of_not_traps htraps, Machine.next_of_not_traps (mt hsame.mp htraps)]
      rfl
  · rw [hkeeps, hkeeps, ← hmem a ha]

theorem strideTwo_oblivious (saved : U64 → Option Byte) (fuel : ℕ) (s : ArchState) :
    Oblivious strideTwo saved fuel s :=
  oblivious_of_obliviousAt strideTwo_obliviousAt saved fuel s

/-- The program at `0x1000`. -/
def strideStart : ArchState :=
  { ctx := { rip := 0x1000 }, mem := fun _ => 0x90 }

/-- A backend attached to it. -/
def strideBackend : NativeBackend Machine :=
  { attached := true, debuggee := { arch := strideStart } }

/-- The backend with a breakpoint at the next instruction. -/
def strideBreakpoint : NativeBackend Machine :=
  perform strideTwo strideBackend (.set 0x1000 1)

/-- `cont` steps over the breakpoint at the next instruction. -/
theorem transparent_stride :
    Follows (Machine.next strideTwo) strideStart
      ([] ++ begunIn strideBackend strideBreakpoint ++
        begunIn strideBreakpoint (perform strideTwo strideBreakpoint (.cont 3)))
      (programState (perform strideTwo strideBreakpoint (.cont 3))) :=
  Debugged.transparent (.call (.cont 3) (.call (.set 0x1000 1) (.attached rfl rfl rfl) (.inl rfl))
    (strideTwo_oblivious _ _ _))

/-- The program after `n` instructions. -/
private def strideAt (n : ℕ) : ArchState :=
  { strideStart with ctx := strideStart.ctx.withRip (BitVec.ofNat 64 (0x1000 + 2 * n)) }

private theorem strideTwo_iterate (n : ℕ) :
    (Machine.next strideTwo)^[n] strideStart = strideAt n := by
  induction n with
  | zero => rfl
  | succ n ih =>
      have hnop : ¬ (strideAt n).Traps := by
        show ¬ (0x90 : Byte) = 0xCC
        decide
      have hrip : (BitVec.ofNat 64 (0x1000 + 2 * n) + 2 : U64) =
          BitVec.ofNat 64 (0x1000 + 2 * (n + 1)) := BitVec.ofNat_add_ofNat ..
      rw [Function.iterate_succ_apply', ih, Machine.next_of_not_traps hnop]
      exact ArchState.ext (congrArg strideStart.ctx.withRip hrip) rfl

/-- `step` at the breakpoint leaves `rip` in the middle of the instruction, where the
program never is. -/
theorem not_transparent_stride : (∀ saved fuel s, Oblivious strideTwo saved fuel s) ∧
    ¬ ∀ b history, Debugged strideTwo (fun _ _ => True) strideStart b history →
      Follows (Machine.next strideTwo) strideStart history (programState b) := by
  refine ⟨strideTwo_oblivious, fun hfollows => ?_⟩
  have hrun : Debugged strideTwo (fun _ _ => True) strideStart
      (perform strideTwo strideBreakpoint .step) _ :=
    .call .step (.call (.set 0x1000 1) (.attached rfl rfl rfl) trivial) trivial
  obtain ⟨n, hn⟩ := (hfollows _ _ hrun).exists_iterate
  have hrip : (programState (perform strideTwo strideBreakpoint .step)).rip = 0x1001 := by
    decide +kernel
  rw [hn, strideTwo_iterate] at hrip
  have hodd : (0x1000 + 2 * n) % 2 ^ 64 = 0x1001 := congrArg BitVec.toNat hrip
  omega

end Irida.NativeBackend
