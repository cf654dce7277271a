import Mathlib.Data.List.TakeWhile

/-!
# Scanners

A scanner reads a stream one symbol at a time and now and then finds an item in
it.  What it finds does not depend on where the stream is cut.

A client that keeps a buffer takes the items out of it one by one; `Takes` says
that these are the items that the scanner finds.  When such a client answers in the
same way to an item that it refuses and to a buffer without one, whoever drains it stops
at a refused item.  `receives_independent_iff` says for which streams this shows.
-/

/-- A scanner, with the state it starts in. -/
structure Scanner (α σ β : Type*) where
  start : σ
  next : σ → α → σ × Option β

namespace Scanner

variable {α σ β γ : Type*}

section

variable (scanner : Scanner α σ β)

/-- The state behind a stream. -/
def after : σ → List α → σ
  | s, [] => s
  | s, a :: stream => after (scanner.next s a).1 stream

/-- The items found in a stream. -/
def found : σ → List α → List β
  | _, [] => []
  | s, a :: stream => (scanner.next s a).2.toList ++ found (scanner.next s a).1 stream

theorem after_append (s : σ) (first second : List α) :
    scanner.after s (first ++ second) = scanner.after (scanner.after s first) second := by
  induction first generalizing s with
  | nil => rfl
  | cons a first ih => exact ih _

theorem found_append (s : σ) (first second : List α) :
    scanner.found s (first ++ second) =
      scanner.found s first ++ scanner.found (scanner.after s first) second := by
  induction first generalizing s with
  | nil => rfl
  | cons a first ih => rw [List.cons_append, found, found, after, ih, List.append_assoc]

end

/-! ## Taking the items out of a buffer -/

/-- The next item is taken out of the buffer, or nothing is when there is none.
`accept` gives what an item is reported as, and `none` for one that is refused. -/
structure Takes (scanner : Scanner α σ β) (accept : β → Option γ)
    (take : List α → Option γ × List α) : Prop where
  nothing : ∀ buf, scanner.found scanner.start buf = [] →
    (take buf).1 = none ∧ scanner.found scanner.start (take buf).2 = []
  first : ∀ buf item items, scanner.found scanner.start buf = item :: items →
    (take buf).1 = accept item ∧ scanner.found scanner.start (take buf).2 = items
  after_take : ∀ buf,
    scanner.after scanner.start (take buf).2 = scanner.after scanner.start buf

/-- The buffer is drained: items are taken until nothing is reported. -/
inductive Drains (take : List α → Option γ × List α) : List α → List γ → List α → Prop
  | done {buf : List α} (h : (take buf).1 = none) : Drains take buf [] (take buf).2
  | more {buf buf' : List α} {x : γ} {out : List γ} (h : (take buf).1 = some x)
      (hmore : Drains take (take buf).2 out buf') : Drains take buf (x :: out) buf'

/-- The chunks of a stream are put into the buffer, which is drained after each. -/
inductive Receives (take : List α → Option γ × List α) :
    List α → List (List α) → List γ → List α → Prop
  | nil {buf : List α} : Receives take buf [] [] buf
  | cons {buf buf' buf'' chunk : List α} {chunks : List (List α)} {out outs : List γ}
      (hdrain : Drains take (buf ++ chunk) out buf')
      (hmore : Receives take buf' chunks outs buf'') :
      Receives take buf (chunk :: chunks) (out ++ outs) buf''

section

variable {scanner : Scanner α σ β} {accept : β → Option γ} {take : List α → Option γ × List α}

/-- What is reported is the first item that is found. -/
theorem Takes.exists_found (ht : scanner.Takes accept take) {buf : List α} {x : γ}
    (h : (take buf).1 = some x) :
    ∃ item, scanner.found scanner.start buf = item :: scanner.found scanner.start (take buf).2 ∧
      accept item = some x := by
  cases hfound : scanner.found scanner.start buf with
  | nil =>
      rw [(ht.nothing buf hfound).1] at h
      cases h
  | cons item items =>
      obtain ⟨htaken, hrest⟩ := ht.first buf item items hfound
      exact ⟨item, by rw [hrest], htaken ▸ h⟩

/-- What draining does: items are done with, in order, and it ends with a refused
one or with the last. -/
theorem Drains.spec (ht : scanner.Takes accept take) {buf buf' : List α} {out : List γ}
    (h : Drains take buf out buf') :
    ∃ done, scanner.found scanner.start buf = done ++ scanner.found scanner.start buf' ∧
      scanner.after scanner.start buf' = scanner.after scanner.start buf ∧
      out = done.filterMap accept ∧
      (scanner.found scanner.start buf' = [] ∨ ∃ item ∈ done, accept item = none) := by
  -- along the calls: the last one refuses an item or finds none
  induction h with
  | @done buf hnone =>
      cases hfound : scanner.found scanner.start buf with
      | nil =>
          have hrest := (ht.nothing buf hfound).2
          exact ⟨[], by rw [hrest]; rfl, ht.after_take buf, rfl, Or.inl hrest⟩
      | cons item items =>
          obtain ⟨htaken, hrest⟩ := ht.first buf item items hfound
          have hitem : accept item = none := htaken ▸ hnone
          refine ⟨[item], by rw [hrest]; rfl, ht.after_take buf, ?_, Or.inr ⟨item, ?_, hitem⟩⟩
          · rw [List.filterMap_cons_none hitem, List.filterMap_nil]
          · exact List.mem_singleton_self item
  | @more buf buf' x out hsome _ ih =>
      obtain ⟨done, hdone, hafter, hout, hend⟩ := ih
      obtain ⟨item, hfound, hitem⟩ := ht.exists_found hsome
      refine ⟨item :: done, ?_, hafter.trans (ht.after_take buf), ?_, ?_⟩
      · rw [hfound, hdone, List.cons_append]
      · rw [List.filterMap_cons_some hitem, hout]
      · rcases hend with hend | ⟨refused, hmem, hrefused⟩
        · exact Or.inl hend
        · exact Or.inr ⟨refused, List.mem_cons_of_mem item hmem, hrefused⟩

/-- No accepted item comes behind a refused one. -/
def NoneBehindRefused (accept : β → Option γ) (items : List β) : Prop :=
  items.Pairwise fun p q => (accept q).isSome → (accept p).isSome

/-- What is reported while a stream is received: the accepted items among those
done with, and what is left over is behind a refused one. -/
theorem Receives.spec (ht : scanner.Takes accept take) {buf buf' : List α}
    {chunks : List (List α)} {out : List γ} (h : Receives take buf chunks out buf') :
    ∃ done, scanner.found scanner.start (buf ++ chunks.flatten) =
        done ++ scanner.found scanner.start buf' ∧
      scanner.after scanner.start buf' = scanner.after scanner.start (buf ++ chunks.flatten) ∧
      out = done.filterMap accept ∧
      (scanner.found scanner.start buf = [] →
        scanner.found scanner.start buf' = [] ∨ ∃ item ∈ done, accept item = none) := by
  induction h with
  | @nil buf =>
      rw [List.flatten_nil, List.append_nil]
      exact ⟨[], rfl, rfl, rfl, Or.inl⟩
  | @cons buf buf' buf'' chunk chunks out outs hdrain _ ih =>
      obtain ⟨done, hdone, hafter, hout, hend⟩ := hdrain.spec ht
      obtain ⟨done', hdone', hafter', houts, hend'⟩ := ih
      rw [List.flatten_cons, ← List.append_assoc]
      refine ⟨done ++ done', ?_, ?_, ?_, fun _ => ?_⟩
      · calc scanner.found scanner.start (buf ++ chunk ++ chunks.flatten)
          _ = done ++ scanner.found scanner.start buf' ++
                scanner.found (scanner.after scanner.start buf') chunks.flatten := by
              rw [found_append, hdone, hafter]
          _ = done ++ scanner.found scanner.start (buf' ++ chunks.flatten) := by
              rw [found_append, List.append_assoc]
          _ = done ++ done' ++ scanner.found scanner.start buf'' := by
              rw [hdone', List.append_assoc]
      · rw [hafter', after_append, after_append scanner _ (buf ++ chunk), hafter]
      · rw [List.filterMap_append, hout, houts]
      · rcases hend with hend | ⟨item, hmem, hrefused⟩
        · rcases hend' hend with hend' | ⟨item, hmem, hrefused⟩
          · exact Or.inl hend'
          · exact Or.inr ⟨item, List.mem_append_right done hmem, hrefused⟩
        · exact Or.inr ⟨item, List.mem_append_left done' hmem, hrefused⟩

theorem Drains.out_eq (ht : scanner.Takes accept take) {buf buf' : List α} {out : List γ}
    (h : Drains take buf out buf') :
    out = ((scanner.found scanner.start buf).takeWhile fun item =>
      (accept item).isSome).filterMap accept := by
  induction h with
  | @done buf hnone =>
      cases hfound : scanner.found scanner.start buf with
      | nil => rfl
      | cons item items =>
          have hitem : accept item = none := (ht.first buf item items hfound).1 ▸ hnone
          rw [List.takeWhile_cons_of_neg (by simp [hitem]), List.filterMap_nil]
  | @more buf buf' x out hsome _ ih =>
      obtain ⟨item, hfound, hitem⟩ := ht.exists_found hsome
      rw [hfound, List.takeWhile_cons_of_pos (by simp [hitem]), List.filterMap_cons_some hitem, ih]

/-! ## How much depends on the chunks -/

private theorem length_found_singleton (s : σ) (a : α) : (scanner.found s [a]).length ≤ 1 := by
  rw [found, found, List.append_nil]
  cases (scanner.next s a).2 <;> simp

/-- In chunks of one symbol each, every accepted item is reported. -/
theorem Receives.out_singletons (ht : scanner.Takes accept take) {stream buf buf' : List α}
    {out : List γ} (hbuf : scanner.found scanner.start buf = [])
    (h : Receives take buf (stream.map fun a => [a]) out buf') :
    out = (scanner.found scanner.start (buf ++ stream)).filterMap accept := by
  induction stream generalizing buf out with
  | nil =>
      cases h
      rw [List.append_nil, hbuf, List.filterMap_nil]
  | cons a stream ih =>
      cases h with
      | @cons _ buf₁ _ _ _ out outs hdrain hmore =>
          obtain ⟨done, hdone, hafter, hout, hend⟩ := hdrain.spec ht
          have hone : (scanner.found scanner.start (buf ++ [a])).length ≤ 1 := by
            rw [found_append, hbuf, List.nil_append]
            exact length_found_singleton _ a
          -- the one item that the symbol may bring is done with
          have hleft : scanner.found scanner.start buf₁ = [] := by
            rcases hend with hend | ⟨item, hmem, -⟩
            · exact hend
            · have hpos := List.length_pos_of_mem hmem
              rw [hdone, List.length_append] at hone
              exact List.length_eq_zero_iff.mp (by omega)
          rw [hleft, List.append_nil] at hdone
          calc out ++ outs
            _ = done.filterMap accept ++
                  (scanner.found scanner.start (buf₁ ++ stream)).filterMap accept := by
                rw [hout, ih hleft hmore]
            _ = (done ++ scanner.found (scanner.after scanner.start (buf ++ [a])) stream).filterMap
                  accept := by
                rw [found_append, hleft, List.nil_append, hafter, List.filterMap_append]
            _ = (scanner.found scanner.start (buf ++ a :: stream)).filterMap accept := by
                rw [← hdone, ← found_append, List.append_assoc, List.singleton_append]

/-- Nothing that is accepted is hidden exactly if it all comes before what is refused. -/
private theorem filterMap_takeWhile_iff (items : List β) :
    (items.takeWhile fun item => (accept item).isSome).filterMap accept = items.filterMap accept ↔
      NoneBehindRefused accept items := by
  induction items with
  | nil => exact iff_of_true rfl List.Pairwise.nil
  | cons item items ih =>
      unfold NoneBehindRefused at ih ⊢
      rw [List.pairwise_cons]
      -- the first refused item ends what is taken, so no accepted one may be behind it
      cases hitem : accept item with
      | none =>
          rw [List.takeWhile_cons_of_neg (by simp [hitem]), List.filterMap_cons_none hitem,
            List.filterMap_nil, eq_comm, List.filterMap_eq_nil_iff]
          constructor
          · intro hnone
            refine ⟨fun q hq hsome => ?_, ?_⟩
            · rw [hnone q hq] at hsome
              cases hsome
            · refine List.pairwise_of_forall_mem_list fun p hp q hq hsome => ?_
              rw [hnone q hq] at hsome
              cases hsome
          · rintro ⟨hbehind, -⟩ q hq
            cases haccept : accept q with
            | none => rfl
            | some x => cases hbehind q hq (haccept ▸ rfl)
      | some x =>
          rw [List.takeWhile_cons_of_pos (by simp [hitem]), List.filterMap_cons_some hitem,
            List.filterMap_cons_some hitem, List.cons.injEq, ih]
          constructor
          · exact fun hrest => ⟨fun _ _ _ => rfl, hrest.2⟩
          · exact fun hall => ⟨rfl, hall.2⟩

/-- **Exactly when the chunks do not matter**: a client that drains its buffer after
each chunk is told the same, however the stream is cut, if and only if the stream has
no accepted item behind a refused one. -/
theorem receives_independent_iff (ht : scanner.Takes accept take)
    {receive : List (List α) → List γ}
    (hreceive : ∀ chunks, ∃ buf, Receives take [] chunks (receive chunks) buf) (stream : List α) :
    (∀ chunks chunks', chunks.flatten = stream → chunks'.flatten = stream →
        receive chunks = receive chunks') ↔
      NoneBehindRefused accept (scanner.found scanner.start stream) := by
  constructor
  -- one chunk is compared with chunks of one symbol each, which hide nothing
  · intro hsame
    obtain ⟨_, hwhole⟩ := hreceive [stream]
    obtain ⟨_, hsingle⟩ := hreceive (stream.map fun a => [a])
    have heq := hsame [stream] (stream.map fun a => [a]) List.flatten_singleton
      (List.flatMap_singleton' stream)
    rw [hsingle.out_singletons ht rfl, List.nil_append] at heq
    rw [← filterMap_takeWhile_iff, ← heq]
    generalize receive [stream] = out at hwhole
    cases hwhole with
    | cons hdrain hmore =>
        cases hmore
        rw [List.append_nil, hdrain.out_eq ht, List.nil_append]
  · intro hitems
    -- nothing that is accepted is hidden, so every division gives all of it
    have hall : ∀ chunks : List (List α), chunks.flatten = stream →
        receive chunks = (scanner.found scanner.start stream).filterMap accept := by
      rintro chunks rfl
      obtain ⟨buf, hchunks⟩ := hreceive chunks
      obtain ⟨done, hdone, -, hout, hend⟩ := hchunks.spec ht
      rw [List.nil_append] at hdone
      rw [hout, hdone, List.filterMap_append, List.self_eq_append_right]
      rcases hend rfl with hleft | ⟨refused, hmem, hrefused⟩
      · rw [hleft, List.filterMap_nil]
      · rw [List.filterMap_eq_nil_iff]
        intro q hq
        rw [NoneBehindRefused, hdone, List.pairwise_append] at hitems
        cases haccept : accept q with
        | none => rfl
        | some x =>
            have hsome := hitems.2.2 refused hmem q hq (haccept ▸ rfl)
            rw [hrefused] at hsome
            cases hsome
    intro chunks chunks' hchunks hchunks'
    rw [hall chunks hchunks, hall chunks' hchunks']

end

end Scanner
