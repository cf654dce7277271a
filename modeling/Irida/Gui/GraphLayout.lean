import Irida.Analysis.Edges
import Irida.Gui.Navigation

/-!
# The layout of the graph

`layout` searches from the first block of the list and `draw` marks that block as the entry.  The
list is in the order of the addresses, so that the first block is the entry block exactly if no
block lies below the entry.  A branch back to a place before the entry makes one.

Where the first block is the entry block, the search goes along the edges of the function
(`path_iff`), and the layers are the lengths of the shortest paths if there is a path to each block.
In what is built from code that does not reach the end of the address space there always is, so that
only the blocks below the entry are left of the condition (`laidOut_iff`).
-/

namespace Irida.Gui

open Analysis Api Disasm

/-- What is promised of the layout: layer `0` is that of the entry block, the other layers are the
lengths of the shortest paths from it, and it is the one that is marked. -/
structure LaidOut (fn : Function) (shown : List GraphBlock) : Prop where
  rows : shown.map GraphBlock.bb = fn.blocks.map blockRow
  layer_eq_zero_iff : ∀ b ∈ shown, b.layer = 0 ↔ b.bb.addr = fn.addr
  distance : ∀ first ∈ fn.blocks, first.addr = fn.addr → ∀ bb ∈ fn.blocks, ∀ b ∈ shown,
    b.bb = blockRow bb → Bfs.Distance (LeadsTo fn.blocks) first bb b.layer
  marked : ∀ box ∈ draw shown, box.2 = true ↔ box.1 = fn.addr

/-! ## The successors of a block -/

section Succs

variable {blocks : List GraphBlock}

/-- Where no two blocks are at one address, the index knows all of them. -/
theorem getElem?_blockIndex (hsorted : blocks.Pairwise fun a b => a.bb.addr < b.bb.addr) {l : U64}
    {j : ℕ} : (blockIndex blocks)[l]? = some j ↔ ∃ b, blocks[j]? = some b ∧ b.bb.addr = l := by
  have hdistinct : blocks.zipIdx.Pairwise fun p q => p.1.bb.addr ≠ q.1.bb.addr := by
    rw [← List.zipIdx_map_fst 0 blocks, List.pairwise_map] at hsorted
    exact hsorted.imp BitVec.ne_of_lt
  rw [blockIndex, Overwrite.getElem?_enter, Std.ExtTreeMap.getElem?_empty, Option.or_none,
    Option.map_eq_some_iff]
  constructor
  · rintro ⟨⟨b, i⟩, hlast, rfl⟩
    obtain ⟨hmem, haddr⟩ := (Overwrite.lastUnder_eq_some_iff _ _ hdistinct).mp hlast
    exact ⟨b, List.mk_mem_zipIdx_iff_getElem?.mp hmem, haddr⟩
  · rintro ⟨b, hb, haddr⟩
    exact ⟨(b, j), (Overwrite.lastUnder_eq_some_iff _ _ hdistinct).mpr
      ⟨List.mk_mem_zipIdx_iff_getElem?.mpr hb, haddr⟩, rfl⟩

theorem mem_succs (hsorted : blocks.Pairwise fun a b => a.bb.addr < b.bb.addr) {i j : ℕ} :
    j ∈ succs blocks i ↔ ∃ b b', blocks[i]? = some b ∧ blocks[j]? = some b' ∧
      b'.bb.addr ≠ 0 ∧ (b.bb.jump = b'.bb.addr ∨ b.bb.fail = b'.bb.addr) := by
  rw [succs]
  cases hb : blocks[i]? with
  | none => simp
  | some b =>
      simp only [List.mem_filterMap, List.mem_filter, List.mem_cons, List.not_mem_nil, or_false,
        getElem?_blockIndex hsorted, decide_eq_true_eq]
      constructor
      · rintro ⟨_, ⟨hedge, hne⟩, b', hb', rfl⟩
        exact ⟨b, b', rfl, hb', hne, hedge.imp Eq.symm Eq.symm⟩
      · rintro ⟨_, b', hsome, hb', hne, hedge⟩
        obtain rfl := Option.some.inj hsome
        exact ⟨b'.bb.addr, ⟨hedge.imp Eq.symm Eq.symm, hne⟩, b', hb', rfl⟩

theorem lt_of_mem_succs (hsorted : blocks.Pairwise fun a b => a.bb.addr < b.bb.addr) {i j : ℕ}
    (h : j ∈ succs blocks i) : j < blocks.length := by
  obtain ⟨_, b', _, hb', -⟩ := (mem_succs hsorted).mp h
  exact (List.getElem?_eq_some_iff.mp hb').1

/-- The search gives a block the length of a shortest path from the first block. -/
theorem layer_search (hsorted : blocks.Pairwise fun a b => a.bb.addr < b.bb.addr)
    (hne : blocks ≠ []) {i n : ℕ} : (search blocks).layer i = some n ↔
      Bfs.Distance (fun a b => b ∈ succs blocks a) 0 i n := by
  have hroot : 0 ∈ Finset.range blocks.length :=
    Finset.mem_range.mpr (List.length_pos_of_ne_nil hne)
  apply Bfs.layer_run_iff hroot
  · exact fun x y hy => Finset.mem_range.mpr (lt_of_mem_succs hsorted hy)
  · exact (Finset.card_range _).le

end Succs

/-! ## The layers of the layout -/

section Layers

theorem getElem?_placeRest {layers : List (Option ℕ)} {i layer : ℕ} (low : ℕ)
    (h : layers[i]? = some (some layer)) : (placeRest low layers)[i]? = some layer := by
  fun_induction placeRest low layers generalizing i with
  | case1 => simp at h
  | case2 low first rest ih =>
      cases i with
      | zero => simpa using h
      | succ i => exact ih (by simpa using h)
  | case3 low rest ih =>
      cases i with
      | zero => simp at h
      | succ i => exact ih (by simpa using h)

variable {blocks : List GraphBlock}

theorem getElem?_layout {i layer : ℕ} {b : GraphBlock} (hb : blocks[i]? = some b)
    (h : (search blocks).layer i = some layer) :
    (layout blocks)[i]? = some { b with layer := layer } := by
  have hlt : i < blocks.length := (List.getElem?_eq_some_iff.mp hb).1
  have hlayers : ((List.range blocks.length).map (search blocks).layer)[i]? =
      some (some layer) := by
    rw [List.getElem?_map, List.getElem?_range hlt, Option.map_some, h]
  rw [layout, List.getElem?_zipWith, hb, getElem?_placeRest _ hlayers]

/-- The boxes are marked by their places. -/
theorem mem_draw {shown : List GraphBlock} {box : U64 × Bool} :
    box ∈ draw shown ↔ ∃ i b, shown[i]? = some b ∧ box = (b.bb.addr, decide (i = 0)) := by
  rw [draw, List.mem_map]
  constructor
  · rintro ⟨⟨b, i⟩, hmem, rfl⟩
    exact ⟨i, b, List.mk_mem_zipIdx_iff_getElem?.mp hmem, rfl⟩
  · rintro ⟨i, b, hb, rfl⟩
    exact ⟨(b, i), List.mk_mem_zipIdx_iff_getElem?.mpr hb, rfl⟩

end Layers

/-! ## The edges of the function -/

section Rows

variable {bbs : List BasicBlock} {blocks : List GraphBlock}
  (hsorted : bbs.Pairwise fun a b => a.addr < b.addr)
  (hrows : blocks.map GraphBlock.bb = bbs.map blockRow)

include hrows in
theorem getElem?_of_rows {i : ℕ} {bb : BasicBlock} (h : bbs[i]? = some bb) :
    ∃ b, blocks[i]? = some b ∧ b.bb = blockRow bb := by
  have hmap := congrArg (fun rows => rows[i]?) hrows
  simp only [List.getElem?_map, h, Option.map_some] at hmap
  exact Option.map_eq_some_iff.mp hmap

include hrows in
theorem exists_of_rows {i : ℕ} {b : GraphBlock} (h : blocks[i]? = some b) :
    ∃ bb, bbs[i]? = some bb ∧ b.bb = blockRow bb := by
  have hmap := congrArg (fun rows => rows[i]?) hrows
  simp only [List.getElem?_map, h, Option.map_some] at hmap
  obtain ⟨bb, hbb, heq⟩ := Option.map_eq_some_iff.mp hmap.symm
  exact ⟨bb, hbb, heq.symm⟩

include hsorted hrows in
theorem pairwise_rows : blocks.Pairwise fun a b => a.bb.addr < b.bb.addr := by
  have h : (bbs.map blockRow).Pairwise fun a b => a.addr < b.addr :=
    List.pairwise_map.mpr hsorted
  rw [← hrows, List.pairwise_map] at h
  exact h

include hsorted in
theorem place_unique {i j : ℕ} {bb : BasicBlock} (h : bbs[i]? = some bb) (h' : bbs[j]? = some bb) :
    i = j := by
  have hnodup : bbs.Nodup := hsorted.imp fun {a b} hlt => by
    rintro rfl
    exact BitVec.lt_irrefl _ hlt
  obtain ⟨hi, hbb⟩ := List.getElem?_eq_some_iff.mp h
  obtain ⟨hj, hbb'⟩ := List.getElem?_eq_some_iff.mp h'
  exact (hnodup.getElem_inj_iff).mp (hbb.trans hbb'.symm)

include hsorted hrows in
/-- One block leads to another one in the list as it does in the function. -/
theorem mem_succs_iff {i j : ℕ} {bb bb' : BasicBlock} (hi : bbs[i]? = some bb)
    (hj : bbs[j]? = some bb') : j ∈ succs blocks i ↔ LeadsTo bbs bb bb' := by
  obtain ⟨b, hb, hrow⟩ := getElem?_of_rows hrows hi
  obtain ⟨b', hb', hrow'⟩ := getElem?_of_rows hrows hj
  rw [mem_succs (pairwise_rows hsorted hrows), hb, hb']
  constructor
  · rintro ⟨_, _, hsome, hsome', hne, hedge⟩
    obtain rfl := Option.some.inj hsome
    obtain rfl := Option.some.inj hsome'
    rw [hrow'] at hne
    rw [hrow, hrow'] at hedge
    exact ⟨List.mem_of_getElem? hj, hne, hedge⟩
  · rintro ⟨-, hne, hedge⟩
    refine ⟨b, b', rfl, rfl, ?_, ?_⟩
    · rw [hrow']
      exact hne
    · rw [hrow, hrow']
      exact hedge

include hsorted hrows in
/-- The paths of the search are those of the function. -/
theorem path_iff {i n : ℕ} {first bb : BasicBlock} (hfirst : bbs[0]? = some first)
    (hi : bbs[i]? = some bb) : Bfs.Path (fun a b => b ∈ succs blocks a) 0 n i ↔
      Bfs.Path (LeadsTo bbs) first n bb := by
  constructor
  · intro hpath
    -- step by step, the places of the list against the blocks of the function
    induction hpath generalizing bb with
    | nil =>
        obtain rfl := Option.some.inj (hfirst.symm.trans hi)
        exact .nil
    | snoc _ hstep ih =>
        obtain ⟨b, _, hb, -⟩ := (mem_succs (pairwise_rows hsorted hrows)).mp hstep
        obtain ⟨bb', hbb', -⟩ := exists_of_rows hrows hb
        exact (ih hbb').snoc ((mem_succs_iff hsorted hrows hbb' hi).mp hstep)
  · intro hpath
    induction hpath generalizing i with
    | nil =>
        obtain rfl := place_unique hsorted hfirst hi
        exact .nil
    | @snoc n b _ hpath hstep ih =>
        have hmem : b ∈ bbs := by
          cases hpath with
          | nil => exact List.mem_of_getElem? hfirst
          | snoc _ hlast => exact hlast.1
        obtain ⟨j, hj⟩ := List.mem_iff_getElem?.mp hmem
        exact (ih hj).snoc ((mem_succs_iff hsorted hrows hj hi).mpr hstep)

include hsorted hrows in
theorem distance_iff {i n : ℕ} {first bb : BasicBlock} (hfirst : bbs[0]? = some first)
    (hi : bbs[i]? = some bb) : Bfs.Distance (fun a b => b ∈ succs blocks a) 0 i n ↔
      Bfs.Distance (LeadsTo bbs) first bb n := by
  simp only [Bfs.Distance, path_iff hsorted hrows hfirst hi]

include hsorted hrows in
theorem exists_layer {i : ℕ} {first bb : BasicBlock} (hfirst : bbs[0]? = some first)
    (hi : bbs[i]? = some bb) (hpath : Relation.ReflTransGen (LeadsTo bbs) first bb) :
    ∃ b, (layout blocks)[i]? = some b ∧ b.bb = blockRow bb ∧
      Bfs.Distance (LeadsTo bbs) first bb b.layer := by
  obtain ⟨n, hn⟩ := Bfs.exists_distance_iff.mpr (Bfs.reflTransGen_iff_path.mp hpath)
  obtain ⟨b, hb, hrow⟩ := getElem?_of_rows hrows hi
  have hne : blocks ≠ [] := List.ne_nil_of_mem (List.mem_of_getElem? hb)
  have hlayer := (layer_search (pairwise_rows hsorted hrows) hne).mpr
    ((distance_iff hsorted hrows hfirst hi).mpr hn)
  exact ⟨_, getElem?_layout hb hlayer, hrow, hn⟩

end Rows

/-! ## When the layout is rooted -/

section Rooted

variable {fn : Function} {blocks : List GraphBlock}
  (hsorted : fn.blocks.Pairwise fun a b => a.addr < b.addr)
  (hentry : ∃ bb ∈ fn.blocks, bb.addr = fn.addr)
  (hrows : blocks.map GraphBlock.bb = fn.blocks.map blockRow)

include hsorted hentry in
/-- If no block lies below the entry, the first one is at the entry. -/
theorem exists_first (hlow : ∀ bb ∈ fn.blocks, fn.addr ≤ bb.addr) :
    ∃ first, fn.blocks[0]? = some first ∧ first.addr = fn.addr := by
  obtain ⟨bb, hbb, haddr⟩ := hentry
  cases hblocks : fn.blocks with
  | nil =>
      rw [hblocks] at hbb
      cases hbb
  | cons first rest =>
      rw [hblocks] at hsorted hbb hlow
      have hle := head_addr_le hsorted bb hbb
      rw [haddr] at hle
      exact ⟨first, rfl, BitVec.le_antisymm hle (hlow first (List.mem_cons_self ..))⟩

include hsorted hrows in
theorem exists_of_layout (hlinked : ∀ bb ∈ fn.blocks, Linked fn.addr fn.blocks bb)
    {first : BasicBlock} (hfirst : fn.blocks[0]? = some first) (haddr : first.addr = fn.addr)
    {i : ℕ} {b : GraphBlock} (hb : (layout blocks)[i]? = some b) :
    ∃ bb, fn.blocks[i]? = some bb ∧ b.bb = blockRow bb ∧
      Bfs.Distance (LeadsTo fn.blocks) first bb b.layer := by
  have hlayout : (layout blocks).map GraphBlock.bb = fn.blocks.map blockRow :=
    (map_bb_layout blocks).trans hrows
  obtain ⟨bb, hbb, hrow⟩ := exists_of_rows hlayout hb
  obtain ⟨other, hother, hotherAddr, hpath⟩ := hlinked bb (List.mem_of_getElem? hbb)
  obtain rfl := eq_of_addr_eq hsorted hother (List.mem_of_getElem? hfirst)
    (hotherAddr.trans haddr.symm)
  obtain ⟨b', hb', -, hdist⟩ := exists_layer hsorted hrows hfirst hbb hpath
  obtain rfl := Option.some.inj (hb.symm.trans hb')
  exact ⟨bb, hbb, hrow, hdist⟩

include hsorted hentry hrows in
theorem laidOut_of_linked (hlow : ∀ bb ∈ fn.blocks, fn.addr ≤ bb.addr)
    (hlinked : ∀ bb ∈ fn.blocks, Linked fn.addr fn.blocks bb) : LaidOut fn (layout blocks) := by
  obtain ⟨first, hfirst, haddr⟩ := exists_first hsorted hentry hlow
  have hfirstMem := List.mem_of_getElem? hfirst
  have hbox : ∀ {i : ℕ} {b : GraphBlock}, (layout blocks)[i]? = some b →
      ∃ bb, fn.blocks[i]? = some bb ∧ b.bb = blockRow bb ∧
        Bfs.Distance (LeadsTo fn.blocks) first bb b.layer :=
    exists_of_layout hsorted hrows hlinked hfirst haddr
  -- only the first block is at the entry
  have hplace : ∀ {bb : BasicBlock}, bb ∈ fn.blocks → bb.addr = fn.addr → bb = first :=
    fun hbb heq => eq_of_addr_eq hsorted hbb hfirstMem (heq.trans haddr.symm)
  constructor
  case rows => exact (map_bb_layout blocks).trans hrows
  case layer_eq_zero_iff =>
    intro b hb
    obtain ⟨i, hi⟩ := List.mem_iff_getElem?.mp hb
    obtain ⟨bb, hbb, hrow, hdist⟩ := hbox hi
    rw [hrow]
    constructor
    · intro hzero
      rw [hzero] at hdist
      rw [← Bfs.distance_zero_iff.mp hdist]
      exact haddr
    · intro heq
      obtain rfl := hplace (List.mem_of_getElem? hbb) heq
      exact Bfs.distance_unique hdist (Bfs.distance_zero_iff.mpr rfl)
  case distance =>
    intro first' hfirst' haddr' bb hbb b hb hrow
    obtain ⟨i, hi⟩ := List.mem_iff_getElem?.mp hb
    obtain ⟨bb', hbb', hrow', hdist⟩ := hbox hi
    have hsame : bb.addr = bb'.addr := congrArg BlockRow.addr (hrow.symm.trans hrow')
    obtain rfl := eq_of_addr_eq hsorted hbb (List.mem_of_getElem? hbb') hsame
    rw [hplace hfirst' haddr']
    exact hdist
  case marked =>
    intro box hmem
    obtain ⟨i, b, hb, rfl⟩ := mem_draw.mp hmem
    obtain ⟨bb, hbb, hrow, -⟩ := hbox hb
    rw [decide_eq_true_eq, hrow]
    constructor
    · rintro rfl
      rw [Option.some.inj (hbb.symm.trans hfirst)]
      exact haddr
    · intro heq
      obtain rfl := hplace (List.mem_of_getElem? hbb) heq
      exact place_unique hsorted hbb hfirst

include hsorted hentry in
/-- A layout is rooted only if the first block is at the entry and the edges lead to all blocks. -/
theorem linked_of_laidOut {shown : List GraphBlock} (h : LaidOut fn shown) :
    (∀ bb ∈ fn.blocks, fn.addr ≤ bb.addr) ∧
      ∀ bb ∈ fn.blocks, Linked fn.addr fn.blocks bb := by
  obtain ⟨entry, hentryMem, haddr⟩ := hentry
  constructor
  · -- the box that is marked is the first one
    cases hblocks : fn.blocks with
    | nil => exact fun bb hbb => absurd hbb List.not_mem_nil
    | cons first rest =>
        obtain ⟨b, hb, hrow⟩ := getElem?_of_rows (i := 0) h.rows (by rw [hblocks]; rfl)
        have hmark := (h.marked _ (mem_draw.mpr ⟨0, b, hb, rfl⟩)).mp rfl
        rw [hrow] at hmark
        rw [hblocks] at hsorted
        intro bb hbb
        rw [← hmark]
        exact head_addr_le hsorted bb hbb
  · intro bb hbb
    obtain ⟨i, hi⟩ := List.mem_iff_getElem?.mp hbb
    obtain ⟨b, hb, hrow⟩ := getElem?_of_rows h.rows hi
    have hdist := h.distance entry hentryMem haddr bb hbb b (List.mem_of_getElem? hb) hrow
    exact ⟨entry, hentryMem, haddr, Bfs.reflTransGen_iff_path.mpr ⟨_, hdist.1⟩⟩

end Rooted

section Analyze

variable {disassembler : Disassembler} {reader : ByteReader}
  {symbolLookup : Option (U64 → Option String)} {entryPoints : List U64} {fuel : ℕ}
  {result : AnalysisResult} {fn : Function}

/-- The edges of what is built from code that does not reach the end of the address space lead to
all of its blocks. -/
theorem linked_of_fromBuild (hlawful : disassembler.Lawful)
    (hend : ∀ pc insn, fetch disassembler reader pc = some insn →
      insn.address.toNat + insn.length.toNat < 2 ^ 64)
    (h : fn.FromBuild disassembler reader) :
    ∀ bb ∈ fn.blocks, Linked fn.addr fn.blocks bb := by
  obtain ⟨fuel, old, fn', callees, xrefs, hbuild, hblocks, -⟩ := h
  obtain ⟨bound, built, b, hrun, hconnected, -⟩ := build_connected hlawful hend fn.addr old
  have hlarge := build_mono (le_max_left fuel bound) hbuild
  rw [(hrun _ (le_max_right fuel bound)).2] at hlarge
  obtain ⟨rfl, -⟩ := Prod.mk.inj (Option.some.inj hlarge)
  rw [hblocks]
  exact hconnected.linked

/-- **When the layout is rooted at the entry**: if no block lies below the entry and the edges lead
to all blocks, and only then.  The edges do so in code that does not reach the end of the address
space. -/
theorem laidOut_iff (h : analyze disassembler reader symbolLookup fuel entryPoints = some result)
    (hfn : fn ∈ result.functions) (disasm : U64 → U64 → List InsnRow) :
    (LaidOut fn (showFunction result disasm fn.addr).shown ↔
      (∀ bb ∈ fn.blocks, fn.addr ≤ bb.addr) ∧ ∀ bb ∈ fn.blocks, Linked fn.addr fn.blocks bb) ∧
    (disassembler.Lawful →
      (∀ pc insn, fetch disassembler reader pc = some insn →
        insn.address.toNat + insn.length.toNat < 2 ^ 64) →
      (LaidOut fn (showFunction result disasm fn.addr).shown ↔
        ∀ bb ∈ fn.blocks, fn.addr ≤ bb.addr)) := by
  have hbuilt := analyze_fromBuild h fn hfn
  obtain ⟨hsorted, hentry⟩ := blocks_ordered hbuilt
  have hrows : (buildBlocks result disasm fn.addr).map GraphBlock.bb = fn.blocks.map blockRow := by
    rw [buildBlocks, List.map_map, functionBlocks_eq (functions_ordered h) hfn]
    exact List.map_id' _
  have hiff : LaidOut fn (showFunction result disasm fn.addr).shown ↔
      (∀ bb ∈ fn.blocks, fn.addr ≤ bb.addr) ∧ ∀ bb ∈ fn.blocks, Linked fn.addr fn.blocks bb :=
    ⟨fun hlaid => linked_of_laidOut hsorted hentry hlaid,
      fun hboth => laidOut_of_linked hsorted hentry hrows hboth.1 hboth.2⟩
  refine ⟨hiff, fun hlawful hend => ?_⟩
  rw [hiff]
  exact and_iff_left (linked_of_fromBuild hlawful hend hbuilt)

end Analyze

theorem laidOut_iff_small : ∃ fuel result,
    analyze smallDecoder (imageReader 0x1000 smallImage) none fuel [0x1000] = some result ∧
    ∃ fn ∈ result.functions,
      (LaidOut fn (showFunction result (fun _ _ => []) fn.addr).shown ↔
        (∀ bb ∈ fn.blocks, fn.addr ≤ bb.addr) ∧ ∀ bb ∈ fn.blocks, Linked fn.addr fn.blocks bb) ∧
      (smallDecoder.Lawful →
        (∀ pc insn, fetch smallDecoder (imageReader 0x1000 smallImage) pc = some insn →
          insn.address.toNat + insn.length.toNat < 2 ^ 64) →
        (LaidOut fn (showFunction result (fun _ _ => []) fn.addr).shown ↔
          ∀ bb ∈ fn.blocks, fn.addr ≤ bb.addr)) := by
  obtain ⟨fuel, result, hrun⟩ :=
    exists_analyze (wellPlaced_fetch smallDecoder_lawful small_fetch_end) none [0x1000]
  obtain ⟨fn, hfn, -⟩ := (analyze_rooted hrun).2 0x1000 (List.mem_singleton_self _) (by decide)
  exact ⟨fuel, result, hrun, fn, hfn, laidOut_iff hrun hfn _⟩

/-- **The layout is not always rooted at the entry.**  The `ret` below the entry comes first. -/
theorem not_laidOut_below : ∃ fuel result,
    analyze smallDecoder (imageReader 0x1000 belowImage) none fuel [0x1001] = some result ∧
    ∃ fn ∈ result.functions, ¬ LaidOut fn (showFunction result (fun _ _ => []) fn.addr).shown := by
  obtain ⟨fuel, result, hrun, haddr, fn, hfn, bb, hbb, hstart, -⟩ := below_function
  refine ⟨fuel, result, hrun, fn, hfn, fun hlaid => ?_⟩
  obtain ⟨hsorted, hentry⟩ := blocks_ordered (analyze_fromBuild hrun fn hfn)
  have hlow := (linked_of_laidOut hsorted hentry hlaid).1 bb hbb
  rw [haddr fn hfn, hstart] at hlow
  exact absurd hlow (by decide)

end Irida.Gui
