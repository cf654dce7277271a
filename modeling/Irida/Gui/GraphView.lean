import Irida.Analysis.Order
import Irida.Api.StaticDisasm
import Irida.Lib.Bfs
import Irida.Lib.Overwrite

/-!
# The graph view

`GraphView` of `graph_view.cpp` draws the blocks of one function: a box for each, with the
instructions of the block as its lines.  It works on the rows of the C interface, which the live and
the static session fill in alike.  Of a box only the block, the lines and the layer are kept here,
not its place in the scene.
-/

namespace Irida

namespace Api

open Analysis

/-- `IridaFunction`. -/
structure FunctionRow where
  addr : U64
  size : U64
  name : String
  blockCount : ℕ
  deriving DecidableEq, Repr

/-- `IridaBasicBlock`. -/
structure BlockRow where
  addr : U64
  size : U64
  jump : U64
  fail : U64
  deriving DecidableEq, Repr

/-- The row of a function. -/
def functionRow (fn : Function) : FunctionRow :=
  ⟨fn.addr, fn.size, fn.name, fn.blocks.length⟩

/-- The row of a block. -/
def blockRow (bb : BasicBlock) : BlockRow :=
  ⟨bb.addr, bb.size, bb.jump, bb.fail⟩

/-- `irida_functions`. -/
def functions (result : AnalysisResult) : List FunctionRow :=
  result.functions.map functionRow

/-- `irida_function_blocks`: the blocks of the first function at the address. -/
def functionBlocks (result : AnalysisResult) (fnAddr : U64) : List BlockRow :=
  match result.functions.find? fun fn => fn.addr = fnAddr with
  | none => []
  | some fn => fn.blocks.map blockRow

end Api

namespace Gui

open Analysis Api

/-- `kMaxBlockInsns`: upper bound on instructions decoded per block. -/
def kMaxBlockInsns : U64 := 256

/-- `GraphView::Block`, without its place. -/
structure GraphBlock where
  bb : BlockRow
  lines : List String
  layer : ℕ := 0
  deriving DecidableEq, Repr

/-- The function in view, and the blocks that were drawn for it. -/
structure GraphView where
  currentFn : U64 := 0
  shown : List GraphBlock := []
  deriving DecidableEq, Repr

/-! ## The lines of a block -/

/-- `QString("%1").arg(addr, 0, 16)`. -/
def hexAddr (addr : U64) : String :=
  String.ofList (Nat.toDigits 16 addr.toNat)

/-- The rows that `buildBlocks` keeps of those that are decoded from the start of a block. -/
def keptRows (rows : List InsnRow) (bb : BlockRow) : List InsnRow :=
  rows.takeWhile fun row => ¬ row.addr ≥ bb.addr + bb.size

/-- The lines of a block: one for each row, or its address. -/
def blockLines (rows : List InsnRow) (bb : BlockRow) : List String :=
  let lines := (keptRows rows bb).map fun row => hexAddr row.addr ++ ("  " ++ row.text)
  if lines = [] then [hexAddr bb.addr] else lines

/-! ## The layers -/

section Layout

variable (blocks : List GraphBlock)

/-- `index`: the block at an address. -/
def blockIndex : Std.ExtTreeMap U64 ℕ :=
  Overwrite.enter (fun p : GraphBlock × ℕ => p.1.bb.addr) Prod.snd ∅ blocks.zipIdx

/-- The blocks that a block leads to. -/
def succs (cur : ℕ) : List ℕ :=
  match blocks[cur]? with
  | none => []
  | some b => ([b.bb.jump, b.bb.fail].filter (· ≠ 0)).filterMap fun target =>
      (blockIndex blocks)[target]?

/-- The breadth-first search from the first block.  Each block is looked at once at most. -/
def search : Bfs.State ℕ :=
  Bfs.run (succs blocks) blocks.length (Bfs.start 0)

/-- The largest layer that the search gave. -/
def maxLayer (layers : List (Option ℕ)) : ℕ :=
  layers.foldl (fun m layer => max m (layer.getD 0)) 0

/-- Blocks without a layer are placed below everything. -/
def placeRest : ℕ → List (Option ℕ) → List ℕ
  | _, [] => []
  | low, some layer :: rest => layer :: placeRest low rest
  | low, none :: rest => (low + 1) :: placeRest (low + 1) rest

/-- `layout`, as far as the layers go. -/
def layout : List GraphBlock :=
  let layers := (List.range blocks.length).map (search blocks).layer
  blocks.zipWith (fun b layer => { b with layer := layer }) (placeRest (maxLayer layers) layers)

/-- `isEntry` of `draw`: the boxes, by their address, and whether they get the border of the
entry. -/
def draw : List (U64 × Bool) :=
  blocks.zipIdx.map fun (b, i) => (b.bb.addr, i = 0)

end Layout

/-! ## What is shown -/

section Show

variable (result : AnalysisResult) (disasm : U64 → U64 → List InsnRow)

/-- `buildBlocks`.  The session is asked for `kMaxBlockInsns` instructions from the start of each
block. -/
def buildBlocks (fnAddr : U64) : List GraphBlock :=
  (functionBlocks result fnAddr).map fun bb =>
    { bb := bb, lines := blockLines (disasm bb.addr kMaxBlockInsns) bb }

/-- `showFunction`. -/
def showFunction (fnAddr : U64) : GraphView :=
  ⟨fnAddr, layout (buildBlocks result disasm fnAddr)⟩

/-- `onNavigation`. -/
def onNavigation (addr : U64) (view : GraphView) : GraphView :=
  match (functions result).find? fun fn => addr ≥ fn.addr ∧ addr < fn.addr + fn.size with
  | none => view
  | some fn => showFunction result disasm fn.addr

end Show

end Gui

end Irida
