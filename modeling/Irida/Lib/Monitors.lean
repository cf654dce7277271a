import Mathlib.Data.List.Basic

/-!
# Monitors of a log

A monitor reads a log from the left to the right and says after each note whether it was allowed,
given those before it.  It has a state behind a log (`Monitor.state`) if no note was forbidden.
A monitor may be asked for a part of a log only (`Monitor.upTo`).

`Logged` is a state with a log of what was done to it.
-/

variable {ν ς σ α : Type*}

/-- The next state for a note, or none if the note is not allowed there. -/
structure Monitor (ν ς : Type*) where
  start : ς
  next : ς → ν → Option ς

namespace Monitor

variable (m : Monitor ν ς)

/-- The state behind some notes. -/
def read (s : ς) (notes : List ν) : Option ς :=
  notes.foldlM m.next s

/-- The state behind a log. -/
def state (log : List ν) : Option ς :=
  m.read m.start log

/-- The monitor up to a note that it takes for an excuse.  From there on it says nothing. -/
def upTo (excuse : ς → ν → Bool) : Monitor ν (Option ς) where
  start := some m.start
  next
    | none, _ => some none
    | some s, note => if excuse s note then some none else (m.next s note).map some

section UpTo

variable {m} {excuse : ς → ν → Bool} {s s' : ς} {notes : List ν}

end UpTo

end Monitor

/-- A state with a log. -/
structure Logged (ν σ : Type*) where
  state : σ
  notes : List ν := []
  deriving DecidableEq

namespace Logged

variable {ν σ α : Type}

/-- A change of the state, with the notes that its result gives rise to. -/
def noting (note : α → List ν) (x : StateM σ α) : StateM (Logged ν σ) α := fun l =>
  ((x l.state).1, { state := (x l.state).2, notes := l.notes ++ note (x l.state).1 })

/-- A change of the state without a note. -/
def silently (x : StateM σ α) : StateM (Logged ν σ) α :=
  noting (fun _ => []) x

end Logged
