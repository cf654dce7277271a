import Mathlib.Data.List.Chain

/-!
# Paths and the blocks that they run through

The steps between single items may be grouped into blocks: a block lists some items, each of which
steps only to the one listed after it, and the last of them steps to the first items of the blocks
behind an edge (`Represents`).  A path of items is then the same thing as a walk along the edges:
it goes through the blocks of a walk, all but the last of them as a whole (`Covers`), and it does
so through one walk only (`path_iff`).
-/

namespace Walks

variable {α β : Type*} {step : α → α → Prop} {listed : β → Prop} {items : β → List α}
  {edge : β → β → Prop}

/-- Blocks that are joined by edges represent the steps between their items. -/
structure Represents (step : α → α → Prop) (listed : β → Prop) (items : β → List α)
    (edge : β → β → Prop) : Prop where
  closed : ∀ {b b'}, listed b → edge b b' → listed b'
  nonempty : ∀ {b b'}, listed b → edge b b' → items b ≠ []
  inner : ∀ {b before x y after z}, listed b → items b = before ++ x :: y :: after →
    (step x z ↔ z = y)
  outer : ∀ {b before x z}, listed b → items b = before ++ [x] →
    (step x z ↔ ∃ b', edge b b' ∧ (items b').head? = some z)
  unique : ∀ {b b' b'' z}, listed b → edge b b' → edge b b'' → (items b').head? = some z →
    (items b'').head? = some z → b' = b''

/-- A path starts at a block and runs through the blocks of a walk, one after the other; it ends
within the last of them. -/
inductive Covers (items : β → List α) (edge : β → β → Prop) : β → List β → List α → Prop
  | within {b : β} {path : List α} : path <+: items b → path ≠ [] → Covers items edge b [] path
  | past {b b' : β} {walk : List β} {path : List α} : edge b b' →
      Covers items edge b' walk path → Covers items edge b (b' :: walk) (items b ++ path)

/-- A path of steps that starts at an item. -/
structure Path (step : α → α → Prop) (start : Option α) (path : List α) : Prop where
  ne_nil : path ≠ []
  head : path.head? = start
  steps : path.IsChain step

namespace Covers

variable {b : β} {walk walk' : List β} {path : List α}

theorem ne_nil (h : Covers items edge b walk path) : path ≠ [] := by
  induction h with
  | within _ hne => exact hne
  | past _ _ ih => exact fun hnil => ih (List.append_eq_nil_iff.mp hnil).2

end Covers

namespace Represents

variable {b : β} {walk walk' : List β} {path : List α}

theorem items_isChain (h : Represents step listed items edge) (hb : listed b) :
    (items b).IsChain step := by
  rw [List.isChain_iff_forall_rel_of_append_cons_cons]
  intro x y before after heq
  exact (h.inner hb heq).mpr rfl

theorem head_eq (h : Represents step listed items edge) (hb : listed b)
    (hcovers : Covers items edge b walk path) : path.head? = (items b).head? := by
  cases hcovers with
  | within hprefix hne =>
      obtain ⟨rest, heq⟩ := hprefix
      rw [← heq, List.head?_append_of_ne_nil _ hne]
  | past hedge _ => exact List.head?_append_of_ne_nil _ (h.nonempty hb hedge)

theorem isChain (h : Represents step listed items edge) (hb : listed b)
    (hcovers : Covers items edge b walk path) : path.IsChain step := by
  induction hcovers with
  | within hprefix _ =>
      obtain ⟨rest, heq⟩ := hprefix
      have hitems := h.items_isChain hb
      rw [← heq] at hitems
      exact hitems.left_of_append
  | @past b b' walk path hedge hrest ih =>
      have hb' := h.closed hb hedge
      refine (h.items_isChain hb).append (ih hb') fun x hx y hy => ?_
      obtain ⟨before, heq⟩ := List.mem_getLast?_eq_getLast hx
      rw [h.head_eq hb' hrest] at hy
      have hlast : items b = (items b).dropLast ++ [x] := by
        rw [heq, List.dropLast_append_getLast]
      exact (h.outer hb hlast).mpr ⟨b', hedge, hy⟩

/-- **A path runs through the blocks**: the induction is on what is left of the path, with the
part of the present block that has been passed. -/
theorem exists_covers (h : Represents step listed items edge) :
    ∀ {rest after before : List α} {x : α} {b : β}, listed b → items b = before ++ x :: after →
      (x :: rest).IsChain step → ∃ walk, Covers items edge b walk (before ++ x :: rest) := by
  intro rest
  induction rest with
  | nil =>
      intro after before x b _ heq _
      refine ⟨[], .within ⟨after, ?_⟩ (by simp)⟩
      rw [heq, List.append_assoc, List.singleton_append]
  | cons y rest ih =>
      intro after before x b hb heq hchain
      obtain ⟨hxy, hrest⟩ := List.isChain_cons_cons.mp hchain
      cases after with
      | cons z after =>
          -- the step stays in the block
          obtain rfl := (h.inner hb heq).mp hxy
          have heq' : items b = (before ++ [x]) ++ y :: after := by rw [heq]; simp
          obtain ⟨walk, hwalk⟩ := ih hb heq' hrest
          exact ⟨walk, by simpa using hwalk⟩
      | nil =>
          -- the step leaves the block along an edge
          obtain ⟨b', hedge, hhead⟩ := (h.outer hb heq).mp hxy
          obtain ⟨after, heq'⟩ := List.head?_eq_some_iff.mp hhead
          have hstart : items b' = [] ++ y :: after := heq'
          obtain ⟨walk, hwalk⟩ := ih (h.closed hb hedge) hstart hrest
          refine ⟨b' :: walk, ?_⟩
          have hover := Covers.past hedge hwalk
          rwa [heq, List.append_assoc] at hover

/-- A path runs through one walk only. -/
theorem covers_unique (h : Represents step listed items edge) (hb : listed b)
    (hcovers : Covers items edge b walk path) (hcovers' : Covers items edge b walk' path) :
    walk = walk' := by
  induction hcovers generalizing walk' with
  | within hprefix _ =>
      cases hcovers' with
      | within _ _ => rfl
      | past _ hrest =>
          have hle := hprefix.length_le
          rw [List.length_append] at hle
          exact absurd (List.eq_nil_of_length_eq_zero (by omega)) hrest.ne_nil
  | @past b b' walk path hedge hrest ih =>
      generalize hwhole : items b ++ path = whole at hcovers'
      cases hcovers' with
      | within hprefix _ =>
          have hle := hprefix.length_le
          rw [← hwhole, List.length_append] at hle
          exact absurd (List.eq_nil_of_length_eq_zero (by omega)) hrest.ne_nil
      | @past _ b'' walk' path' hedge' hrest' =>
          obtain rfl := List.append_cancel_left hwhole
          obtain ⟨z, rest, rfl⟩ := List.exists_cons_of_ne_nil hrest.ne_nil
          have hhead := h.head_eq (h.closed hb hedge) hrest
          have hhead' := h.head_eq (h.closed hb hedge') hrest'
          obtain rfl := h.unique hb hedge hedge' hhead.symm hhead'.symm
          rw [ih (h.closed hb hedge) hrest']

/-- **Paths are walks.**  What starts at the first item of a block is a path of steps if and only
if it runs through a walk along the edges, and then through exactly one. -/
theorem path_iff (h : Represents step listed items edge) (hb : listed b) :
    Path step (items b).head? path ↔ ∃! walk, Covers items edge b walk path := by
  constructor
  · rintro ⟨hpath, hhead, hsteps⟩
    obtain ⟨x, rest, rfl⟩ := List.exists_cons_of_ne_nil hpath
    obtain ⟨after, heq⟩ := List.head?_eq_some_iff.mp hhead.symm
    have hstart : items b = [] ++ x :: after := heq
    obtain ⟨walk, hwalk⟩ := h.exists_covers hb hstart hsteps
    exact ⟨walk, hwalk, fun walk' hwalk' => h.covers_unique hb hwalk' hwalk⟩
  · rintro ⟨walk, hwalk, -⟩
    exact ⟨hwalk.ne_nil, h.head_eq hb hwalk, h.isChain hb hwalk⟩

end Represents

end Walks
