import Mathlib.Data.Finset.Card
import Mathlib.Data.Nat.Find
import Mathlib.Logic.Function.Basic
import Mathlib.Logic.Relation

/-!
# Breadth-first search

A queue is worked off from the front.  What the front leads to and has no layer yet gets the layer
after that of the front, and is put on the back of the queue.  `layer_run_iff` says that the layer
of an element is then the length of a shortest path to it, and that it has one exactly if there is a
path.

The queue always holds the rest of one layer followed by the start of the next one (`Frontier`).  So
whatever has a layer when the front is taken off is at most one layer below it, and no edge leads
further than that.  The loop is written with fuel: `State.potential` is lowered by one each time, so
that the number of elements is enough (`queue_run`).
-/

namespace Bfs

variable {α : Type*}

/-! ## Paths -/

/-- A path of `n` steps from `a`. -/
inductive Path (r : α → α → Prop) (a : α) : ℕ → α → Prop
  | nil : Path r a 0 a
  | snoc {n : ℕ} {b c : α} : Path r a n b → r b c → Path r a (n + 1) c

/-- The length of a shortest path. -/
def Distance (r : α → α → Prop) (a b : α) (n : ℕ) : Prop :=
  Path r a n b ∧ ∀ m, Path r a m b → n ≤ m

theorem reflTransGen_iff_path {r : α → α → Prop} {a b : α} :
    Relation.ReflTransGen r a b ↔ ∃ n, Path r a n b := by
  constructor
  · intro h
    induction h with
    | refl => exact ⟨0, .nil⟩
    | tail _ hstep ih =>
        obtain ⟨n, hpath⟩ := ih
        exact ⟨n + 1, hpath.snoc hstep⟩
  · rintro ⟨n, hpath⟩
    induction hpath with
    | nil => exact .refl
    | snoc _ hstep ih => exact ih.tail hstep

theorem exists_distance_iff {r : α → α → Prop} {a b : α} :
    (∃ n, Distance r a b n) ↔ ∃ n, Path r a n b := by
  classical
  constructor
  · rintro ⟨n, hpath, -⟩
    exact ⟨n, hpath⟩
  · intro h
    exact ⟨Nat.find h, Nat.find_spec h, fun m hm => Nat.find_min' h hm⟩

theorem distance_unique {r : α → α → Prop} {a b : α} {n m : ℕ} (h : Distance r a b n)
    (h' : Distance r a b m) : n = m :=
  Nat.le_antisymm (h.2 m h'.1) (h'.2 n h.1)

theorem distance_zero_iff {r : α → α → Prop} {a b : α} : Distance r a b 0 ↔ a = b := by
  constructor
  · rintro ⟨hpath, -⟩
    cases hpath
    rfl
  · rintro rfl
    exact ⟨.nil, fun _ _ => Nat.zero_le _⟩

/-! ## The search -/

/-- The layers given so far, and the elements whose successors are still to be looked at. -/
structure State (α : Type*) where
  layer : α → Option ℕ
  queue : List α

section

variable [DecidableEq α]

/-- An element without a layer gets one, and is queued. -/
def discover (depth : ℕ) (s : State α) (x : α) : State α :=
  if s.layer x = none then ⟨Function.update s.layer x (some depth), s.queue ++ [x]⟩ else s

/-- The loop over the queue. -/
def run (succ : α → List α) : ℕ → State α → State α
  | 0, s => s
  | fuel + 1, s =>
    match s.queue with
    | [] => s
    | x :: rest =>
      run succ fuel ((succ x).foldl (discover ((s.layer x).getD 0 + 1)) ⟨s.layer, rest⟩)

/-- The root alone has a layer. -/
def start (root : α) : State α :=
  ⟨Function.update (fun _ => none) root (some 0), [root]⟩

end

/-! ## One element of the queue -/

/-- What looking at the successors `found` of an element changes. -/
structure Scanned (depth : ℕ) (found : List α) (s t : State α) : Prop where
  kept : ∀ {x n}, s.layer x = some n → t.layer x = some n
  layered : ∀ x ∈ found, ∃ n, t.layer x = some n
  fresh : ∀ {x n}, t.layer x = some n → s.layer x = some n ∨ n = depth ∧ x ∈ found ∧ x ∈ t.queue
  queue : ∃ added, t.queue = s.queue ++ added ∧ ∀ x ∈ added, t.layer x = some depth

theorem Scanned.trans {depth : ℕ} {found found' : List α} {s t u : State α}
    (h : Scanned depth found s t) (h' : Scanned depth found' t u) :
    Scanned depth (found ++ found') s u := by
  obtain ⟨added, hqueue, hadded⟩ := h.queue
  obtain ⟨added', hqueue', hadded'⟩ := h'.queue
  constructor
  case kept => exact fun hx => h'.kept (h.kept hx)
  case layered =>
    intro x hx
    rcases List.mem_append.mp hx with hx | hx
    · obtain ⟨n, hn⟩ := h.layered x hx
      exact ⟨n, h'.kept hn⟩
    · exact h'.layered x hx
  case fresh =>
    intro x n hx
    rcases h'.fresh hx with hx | ⟨hn, hmem, hin⟩
    · rcases h.fresh hx with hx | ⟨hn, hmem, hin⟩
      · exact Or.inl hx
      · refine Or.inr ⟨hn, List.mem_append_left _ hmem, ?_⟩
        rw [hqueue']
        exact List.mem_append_left _ hin
    · exact Or.inr ⟨hn, List.mem_append_right _ hmem, hin⟩
  case queue =>
    refine ⟨added ++ added', by rw [hqueue', hqueue, List.append_assoc], fun x hx => ?_⟩
    rcases List.mem_append.mp hx with hx | hx
    · exact h'.kept (hadded x hx)
    · exact hadded' x hx

section

variable [DecidableEq α]

theorem layer_discover (depth : ℕ) (s : State α) (x y : α) :
    (discover depth s x).layer y =
      if y = x ∧ s.layer x = none then some depth else s.layer y := by
  unfold discover
  by_cases hnone : s.layer x = none
  · rw [if_pos hnone]
    dsimp only
    by_cases hyx : y = x
    · rw [if_pos ⟨hyx, hnone⟩, hyx, Function.update_self]
    · rw [if_neg fun h => hyx h.1, Function.update_of_ne hyx]
  · rw [if_neg hnone, if_neg fun h => hnone h.2]

theorem scanned_discover (depth : ℕ) (s : State α) (x : α) :
    Scanned depth [x] s (discover depth s x) := by
  by_cases hnone : s.layer x = none
  · have hqueue : (discover depth s x).queue = s.queue ++ [x] := by
      unfold discover
      rw [if_pos hnone]
    have hself : (discover depth s x).layer x = some depth := by
      rw [layer_discover, if_pos ⟨rfl, hnone⟩]
    have hother : ∀ {y}, y ≠ x → (discover depth s x).layer y = s.layer y := fun hyx => by
      rw [layer_discover, if_neg fun h => hyx h.1]
    constructor
    case kept =>
      intro y n hy
      rw [hother fun hyx => by simp [hyx, hnone] at hy]
      exact hy
    case layered =>
      intro y hy
      exact ⟨depth, List.mem_singleton.mp hy ▸ hself⟩
    case fresh =>
      intro y n hy
      by_cases hyx : y = x
      · subst hyx
        refine Or.inr ⟨Option.some.inj (hy.symm.trans hself), List.mem_singleton_self _, ?_⟩
        rw [hqueue]
        exact List.mem_append_right _ (List.mem_singleton_self _)
      · exact Or.inl (hother hyx ▸ hy)
    case queue =>
      exact ⟨[x], hqueue, fun y hy => List.mem_singleton.mp hy ▸ hself⟩
  -- an element that has a layer changes nothing
  · have hsame : discover depth s x = s := by
      unfold discover
      rw [if_neg hnone]
    rw [hsame]
    refine ⟨id, fun y hy => ?_, Or.inl, [], by simp, fun y hy => absurd hy List.not_mem_nil⟩
    rw [List.mem_singleton.mp hy]
    exact Option.ne_none_iff_exists'.mp hnone

theorem scanned_foldl (depth : ℕ) (found : List α) (s : State α) :
    Scanned depth found s (found.foldl (discover depth) s) := by
  induction found generalizing s with
  | nil => exact ⟨id, by simp, Or.inl, [], by simp, by simp⟩
  | cons x found ih => exact (scanned_discover depth s x).trans (ih _)

end

/-! ## The order of the queue -/

/-- The queue holds elements of layer `d`, and after them elements of layer `d + 1`.  No layer is
beyond that, and what is not on the queue leads at most one layer further. -/
structure Frontier (succ : α → List α) (root : α) (d : ℕ) (s : State α) : Prop where
  root_layer : s.layer root = some 0
  path : ∀ {x n}, s.layer x = some n → Path (fun a b => b ∈ succ a) root n x
  bound : ∀ {x n}, s.layer x = some n → n ≤ d + 1
  queue : ∃ near far, s.queue = near ++ far ∧ (∀ x ∈ near, s.layer x = some d) ∧
    ∀ x ∈ far, s.layer x = some (d + 1)
  closed : ∀ {x n}, s.layer x = some n → x ∉ s.queue →
    ∀ y ∈ succ x, ∃ m ≤ n + 1, s.layer y = some m

variable {succ : α → List α} {root : α}

/-- When a layer is used up, the next one is at the front. -/
theorem Frontier.advance {d : ℕ} {s : State α} (h : Frontier succ root d s) {far : List α}
    (hqueue : s.queue = far) (hfar : ∀ x ∈ far, s.layer x = some (d + 1)) :
    Frontier succ root (d + 1) s where
  root_layer := h.root_layer
  path := h.path
  bound hx := (h.bound hx).trans (Nat.le_succ _)
  queue := ⟨far, [], by rw [hqueue, List.append_nil], hfar, fun x hx => absurd hx List.not_mem_nil⟩
  closed := h.closed

section

variable [DecidableEq α]

theorem layer_start (root x : α) : (start root).layer x = if x = root then some 0 else none := by
  rw [start]
  dsimp only
  rw [Function.update_apply]

theorem frontier_start (succ : α → List α) (root : α) : Frontier succ root 0 (start root) := by
  have hlayer : ∀ {x n}, (start root).layer x = some n → x = root ∧ n = 0 := by
    intro x n hx
    rw [layer_start] at hx
    split at hx
    · next hroot => exact ⟨hroot, (Option.some.inj hx).symm⟩
    · cases hx
  have hself : (start root).layer root = some 0 := by rw [layer_start, if_pos rfl]
  constructor
  case root_layer => exact hself
  case path =>
    intro x n hx
    obtain ⟨rfl, rfl⟩ := hlayer hx
    exact .nil
  case bound =>
    intro x n hx
    rw [(hlayer hx).2]
    exact Nat.zero_le _
  case queue =>
    exact ⟨[root], [], rfl, fun x hx => List.mem_singleton.mp hx ▸ hself,
      fun x hx => absurd hx List.not_mem_nil⟩
  case closed =>
    intro x n hx hout
    rw [(hlayer hx).1] at hout
    exact absurd (List.mem_singleton_self root) hout

/-- Taking an element of layer `d` off the queue. -/
theorem Frontier.pop {d : ℕ} {s : State α} {x : α} {near far : List α}
    (h : Frontier succ root d s) (hqueue : s.queue = x :: near ++ far)
    (hnear : ∀ y ∈ x :: near, s.layer y = some d) (hfar : ∀ y ∈ far, s.layer y = some (d + 1)) :
    Frontier succ root d ((succ x).foldl (discover (d + 1)) ⟨s.layer, near ++ far⟩) := by
  have hscan := scanned_foldl (d + 1) (succ x) ⟨s.layer, near ++ far⟩
  have hx : s.layer x = some d := hnear x (List.mem_cons_self ..)
  set t := (succ x).foldl (discover (d + 1)) ⟨s.layer, near ++ far⟩
  obtain ⟨added, hadd, hadded⟩ := hscan.queue
  have hbound : ∀ {y n}, t.layer y = some n → n ≤ d + 1 := by
    intro y n hy
    rcases hscan.fresh hy with hy | ⟨rfl, -, -⟩
    · exact h.bound hy
    · exact Nat.le_refl _
  constructor
  case root_layer => exact hscan.kept h.root_layer
  case path =>
    intro y n hy
    rcases hscan.fresh hy with hy | ⟨rfl, hmem, -⟩
    · exact h.path hy
    · exact (h.path hx).snoc hmem
  case bound => exact hbound
  case queue =>
    refine ⟨near, far ++ added, by rw [hadd, List.append_assoc], fun y hy => ?_, fun y hy => ?_⟩
    · exact hscan.kept (hnear y (List.mem_cons_of_mem _ hy))
    · rcases List.mem_append.mp hy with hy | hy
      · exact hscan.kept (hfar y hy)
      · exact hadded y hy
  case closed =>
    intro y n hy hout z hz
    by_cases hyx : y = x
    · subst hyx
      obtain ⟨m, hm⟩ := hscan.layered z hz
      obtain rfl : d = n := Option.some.inj ((hscan.kept hx).symm.trans hy)
      exact ⟨m, hbound hm, hm⟩
    · rcases hscan.fresh hy with hold | ⟨-, -, hin⟩
      · -- it had been taken off the queue before
        have hout' : y ∉ s.queue := by
          rw [hqueue, List.cons_append]
          intro hmem
          rcases List.mem_cons.mp hmem with rfl | hmem
          · exact hyx rfl
          · exact hout (hadd ▸ List.mem_append_left _ hmem)
        obtain ⟨m, hle, hm⟩ := h.closed hold hout' z hz
        exact ⟨m, hle, hscan.kept hm⟩
      · exact absurd hin hout

theorem Frontier.step {d : ℕ} {s : State α} {x : α} {rest : List α}
    (h : Frontier succ root d s) (hqueue : s.queue = x :: rest) : ∃ d',
      Frontier succ root d'
        ((succ x).foldl (discover ((s.layer x).getD 0 + 1)) ⟨s.layer, rest⟩) := by
  obtain ⟨near, far, hsplit, hnear, hfar⟩ := h.queue
  cases near with
  | nil =>
      have hfront := hqueue.symm.trans (hsplit.trans (List.nil_append far))
      subst hfront
      have hnext := h.advance hqueue hfar
      refine ⟨d + 1, ?_⟩
      rw [hfar x (List.mem_cons_self ..), Option.getD_some]
      have hpop := hnext.pop (by rwa [List.append_nil]) hfar fun y hy => absurd hy List.not_mem_nil
      rwa [List.append_nil] at hpop
  | cons y near =>
      obtain ⟨rfl, rfl⟩ := List.cons_eq_cons.mp (hqueue.symm.trans hsplit)
      refine ⟨d, ?_⟩
      rw [hnear x (List.mem_cons_self ..), Option.getD_some]
      exact h.pop hsplit hnear hfar

theorem Frontier.run (fuel : ℕ) : ∀ {d : ℕ} {s : State α}, Frontier succ root d s →
    ∃ d', Frontier succ root d' (run succ fuel s) := by
  induction fuel with
  | zero => exact fun h => ⟨_, h⟩
  | succ fuel ih =>
      intro d s h
      rw [Bfs.run]
      split
      · exact ⟨d, h⟩
      · next x rest hqueue =>
          obtain ⟨d', hstep⟩ := h.step hqueue
          exact ih hstep

/-! ## The end of the loop -/

/-- The length of the queue plus the number of elements without a layer. -/
def State.potential (nodes : Finset α) (s : State α) : ℕ :=
  s.queue.length + (nodes.filter fun x => s.layer x = none).card

theorem potential_discover {nodes : Finset α} {x : α} (hx : x ∈ nodes) (depth : ℕ)
    (s : State α) : (discover depth s x).potential nodes = s.potential nodes := by
  by_cases hnone : s.layer x = none
  · have hrest : (nodes.filter fun y => (discover depth s x).layer y = none) =
        (nodes.filter fun y => s.layer y = none).erase x := by
      ext y
      rw [Finset.mem_filter, Finset.mem_erase, Finset.mem_filter, layer_discover]
      by_cases hyx : y = x
      · rw [if_pos ⟨hyx, hnone⟩]
        exact ⟨fun h => absurd h.2 (Option.some_ne_none _), fun h => absurd hyx h.1⟩
      · rw [if_neg fun h => hyx h.1]
        exact ⟨fun h => ⟨hyx, h⟩, fun h => h.2⟩
    have hmem : x ∈ nodes.filter fun y => s.layer y = none := Finset.mem_filter.mpr ⟨hx, hnone⟩
    have hqueue : (discover depth s x).queue.length = s.queue.length + 1 := by
      unfold discover
      rw [if_pos hnone, List.length_append, List.length_singleton]
    have hpos := Finset.card_pos.mpr ⟨x, hmem⟩
    rw [State.potential, State.potential, hrest, Finset.card_erase_of_mem hmem, hqueue]
    omega
  · unfold discover
    rw [if_neg hnone]

theorem potential_foldl {nodes : Finset α} {found : List α} (h : ∀ x ∈ found, x ∈ nodes)
    (depth : ℕ) (s : State α) :
    (found.foldl (discover depth) s).potential nodes = s.potential nodes := by
  induction found generalizing s with
  | nil => rfl
  | cons x found ih =>
      rw [List.forall_mem_cons] at h
      rw [List.foldl_cons, ih h.2, potential_discover h.1]

/-- Enough fuel empties the queue. -/
theorem queue_run {nodes : Finset α} (hnodes : ∀ x, ∀ y ∈ succ x, y ∈ nodes) {fuel : ℕ} :
    ∀ {s : State α}, s.potential nodes ≤ fuel → (run succ fuel s).queue = [] := by
  induction fuel with
  | zero =>
      intro s hle
      rw [State.potential] at hle
      rw [run]
      exact List.length_eq_zero_iff.mp (by omega)
  | succ fuel ih =>
      intro s hle
      rw [run]
      split
      · next hnil => exact hnil
      · next x rest hqueue =>
          apply ih
          rw [potential_foldl (hnodes x)]
          rw [State.potential, hqueue, List.length_cons] at hle
          rw [State.potential]
          dsimp only
          omega

theorem potential_start {nodes : Finset α} (hroot : root ∈ nodes) :
    (start root).potential nodes = nodes.card := by
  have hrest : (nodes.filter fun x => (start root).layer x = none) = nodes.erase root := by
    ext x
    rw [Finset.mem_filter, Finset.mem_erase, layer_start]
    by_cases hx : x = root <;> simp [hx]
  have hpos := Finset.card_pos.mpr ⟨root, hroot⟩
  rw [State.potential, hrest, Finset.card_erase_of_mem hroot, start, List.length_singleton]
  omega

/-- **The layer of an element is the length of a shortest path to it**, if the fuel is enough for
the elements that there are. -/
theorem layer_run_iff {nodes : Finset α} (hroot : root ∈ nodes)
    (hnodes : ∀ x, ∀ y ∈ succ x, y ∈ nodes) {fuel : ℕ} (hfuel : nodes.card ≤ fuel) {x : α} {n : ℕ} :
    (run succ fuel (start root)).layer x = some n ↔
      Distance (fun a b => b ∈ succ a) root x n := by
  obtain ⟨d, hfront⟩ := (frontier_start succ root).run fuel
  have hdone : (run succ fuel (start root)).queue = [] :=
    queue_run hnodes ((potential_start hroot).trans_le hfuel)
  -- every path leads to a layer that is not beyond its length
  have hreach : ∀ {m y}, Path (fun a b => b ∈ succ a) root m y →
      ∃ k ≤ m, (run succ fuel (start root)).layer y = some k := by
    intro m y hpath
    induction hpath with
    | nil => exact ⟨0, Nat.le_refl 0, hfront.root_layer⟩
    | snoc _ hstep ih =>
        obtain ⟨k, hle, hk⟩ := ih
        obtain ⟨k', hle', hk'⟩ := hfront.closed hk (by simp [hdone]) _ hstep
        exact ⟨k', hle'.trans (Nat.succ_le_succ hle), hk'⟩
  constructor
  · intro hx
    refine ⟨hfront.path hx, fun m hpath => ?_⟩
    obtain ⟨k, hle, hk⟩ := hreach hpath
    exact (Option.some.inj (hx.symm.trans hk)).trans_le hle
  · rintro ⟨hpath, hmin⟩
    obtain ⟨k, hle, hk⟩ := hreach hpath
    rw [hk, Nat.le_antisymm hle (hmin k (hfront.path hk))]

end

end Bfs
