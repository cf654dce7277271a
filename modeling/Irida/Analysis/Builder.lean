import Irida.Disasm.Instruction
import Irida.Lib.Worklist
import Std.Data.ExtTreeMap
import Std.Data.ExtTreeSet

/-!
# The function builder

`FunctionBuilder` of `analysis.cpp`: a block is traced from each leader of a
worklist, and `finalize` cuts the traced blocks at the leaders that were found
too late.  `std::set` and `std::map` are the ordered containers of `Std`.

The loops are written with fuel.  They may run forever (a decoder that accepts
every address of the address space never lets `trace_block` stop), and `none`
stands for that: the results below are stated for every large enough fuel.
-/

namespace Irida.Analysis

open Disasm

/-- `kReadWindow`. -/
def kReadWindow : ℕ := 256

/-- `BasicBlock`. -/
structure BasicBlock where
  addr : U64 := 0
  size : U64 := 0
  jump : U64 := 0
  fail : U64 := 0
  instrAddrs : List U64 := []
  deriving DecidableEq, Repr

/-- `XrefKind`. -/
inductive XrefKind
  | call
  | jump
  | data
  deriving DecidableEq, Repr

/-- `Xref`: a reference from one address to another. -/
structure Xref where
  site : U64
  target : U64
  kind : XrefKind
  deriving DecidableEq, Repr

/-- `Function`. -/
structure Function where
  addr : U64 := 0
  size : U64 := 0
  name : String := ""
  blocks : List BasicBlock := []
  callees : List U64 := []
  deriving DecidableEq, Repr

/-- `ByteReader`: the bytes filled in when `n` bytes are asked for at an
address, none if it is unmapped. -/
structure ByteReader where
  read : U64 → ℕ → Bytes
  length_le : ∀ addr n, (read addr n).length ≤ n

/-- `default_name`. -/
def defaultName (addr : U64) : String :=
  "fcn." ++ String.ofList (Nat.toDigits 16 addr.toNat)

/-- The members of `FunctionBuilder` and the two vectors it appends to. -/
structure Builder where
  leaders : Std.ExtTreeSet U64 := ∅
  blocks : Std.ExtTreeMap U64 BasicBlock := ∅
  callees : List U64 := []
  xrefs : List Xref := []

namespace Builder

/-- `add_leader`. -/
def addLeader (b : Builder) (addr : U64) : Builder :=
  { b with leaders := b.leaders.insert addr }

/-- `out_xrefs.push_back`. -/
def pushXref (b : Builder) (site target : U64) (kind : XrefKind) : Builder :=
  { b with xrefs := b.xrefs ++ [⟨site, target, kind⟩] }

/-- `out_callees.push_back`. -/
def pushCallee (b : Builder) (target : U64) : Builder :=
  { b with callees := b.callees ++ [target] }

end Builder

/-- `bb.instr_addrs.push_back(insn.address); bb.size += insn.length`. -/
def BasicBlock.push (bb : BasicBlock) (insn : Instruction) : BasicBlock :=
  { bb with
    instrAddrs := bb.instrAddrs ++ [insn.address]
    size := bb.size + insn.length.setWidth 64 }

section Trace

variable (disasm : Disassembler) (reader : ByteReader)

/-- The loop of `trace_block` from `pc`, with the block traced so far. -/
def traceLoop (start : U64) : ℕ → U64 → BasicBlock → Builder → Option (BasicBlock × Builder)
  | 0, _, _, _ => none
  | fuel + 1, pc, bb, b =>
    -- stop before an address that already leads another block
    if pc ≠ start ∧ pc ∈ b.leaders then some ({ bb with fail := pc }, b)
    else
      let window := reader.read pc kReadWindow
      if window.length = 0 then some (bb, b)
      else
        match disasm.decodeOne window pc with
        | .error _ => some (bb, b)
        | .ok insn =>
          let bb := bb.push insn
          let next := insn.next
          match insn.flow with
          | .jump =>
            if insn.branchTarget ≠ 0 then
              some ({ bb with jump := insn.branchTarget },
                (b.pushXref insn.address insn.branchTarget .jump).addLeader insn.branchTarget)
            else some (bb, b)
          | .condJump =>
            let (bb, b) :=
              if insn.branchTarget ≠ 0 then
                ({ bb with jump := insn.branchTarget },
                  (b.pushXref insn.address insn.branchTarget .jump).addLeader insn.branchTarget)
              else (bb, b)
            some ({ bb with fail := next }, b.addLeader next)
          | .call =>
            -- a call returns: keep decoding the same block
            let b :=
              if insn.branchTarget ≠ 0 then
                (b.pushXref insn.address insn.branchTarget .call).pushCallee insn.branchTarget
              else b
            traceLoop start fuel next bb b
          | .ret => some (bb, b)
          | .sequential => traceLoop start fuel next bb b

/-- `trace_block`. -/
def traceBlock (fuel : ℕ) (start : U64) (b : Builder) : Option (BasicBlock × Builder) :=
  traceLoop disasm reader start fuel start { addr := start } b

/-- One iteration of the worklist loop of `build`: the block is traced unless
there is one, and its successors are reported. -/
def visitBlock (fuel : ℕ) (start : U64) (b : Builder) : Option (Builder × List U64) :=
  if start ∈ b.blocks then some (b, [])
  else
    match traceBlock disasm reader fuel start b with
    | none => none
    | some (bb, b) =>
      some ({ b with blocks := b.blocks.insertIfNew bb.addr bb },
        [bb.jump, bb.fail].filter (· ≠ 0))

end Trace

/-- `is_instr_boundary`. -/
def isInstrBoundary (bb : BasicBlock) (addr : U64) : Bool :=
  bb.instrAddrs.contains addr

/-- The head that `split_block` leaves in place: it falls through to `leader`. -/
def splitHead (bb : BasicBlock) (leader : U64) : BasicBlock :=
  { bb with
    size := leader - bb.addr
    instrAddrs := bb.instrAddrs.filter (· < leader)
    jump := 0
    fail := leader }

/-- The tail that `split_block` cuts off: it inherits the successors. -/
def splitTail (bb : BasicBlock) (leader : U64) : BasicBlock :=
  { addr := leader
    size := bb.size - (leader - bb.addr)
    jump := bb.jump
    fail := bb.fail
    instrAddrs := bb.instrAddrs.filter (¬ · < leader) }

/-- `split_block`: the block stored under `key` is cut, and the tail is added
unless the leader already owns a block. -/
def splitBlock (blocks : Std.ExtTreeMap U64 BasicBlock) (key : U64) (bb : BasicBlock)
    (leader : U64) : Std.ExtTreeMap U64 BasicBlock :=
  (blocks.insert key (splitHead bb leader)).insertIfNew leader (splitTail bb leader)

/-- The first leader, in order, at which a block has to be cut. -/
def findLeader (leaders : List U64) (bb : BasicBlock) : Option U64 :=
  leaders.find? fun leader =>
    !(leader ≤ bb.addr ∨ leader ≥ bb.addr + bb.size) && isInstrBoundary bb leader

/-- The two nested `for` loops of `finalize`: the first block, in order, that
has to be cut, and the leader to cut it at. -/
def findSplit (leaders : List U64) (blocks : List (U64 × BasicBlock)) :
    Option (U64 × BasicBlock × U64) :=
  blocks.findSome? fun (key, bb) => (findLeader leaders bb).map fun leader => (key, bb, leader)

/-- The `while (changed)` loop of `finalize`. -/
def splitLoop (leaders : Std.ExtTreeSet U64) :
    ℕ → Std.ExtTreeMap U64 BasicBlock → Option (Std.ExtTreeMap U64 BasicBlock)
  | 0, _ => none
  | fuel + 1, blocks =>
    match findSplit leaders.toList blocks.toList with
    | none => some blocks
    | some (key, bb, leader) => splitLoop leaders fuel (splitBlock blocks key bb leader)

/-- `finalize`. -/
def finalize (fuel : ℕ) (entry : U64) (b : Builder) : Option Function :=
  match splitLoop b.leaders fuel b.blocks with
  | none => none
  | some blocks =>
    let list := blocks.toList.map Prod.snd
    some
      { addr := entry
        name := defaultName entry
        size := list.foldl (fun size bb => size + bb.size) 0
        blocks := list.mergeSort fun a b => a.addr ≤ b.addr }

/-- `build`: the function at `entry`, with the call targets and the references
appended to `xrefs`. -/
def build (disasm : Disassembler) (reader : ByteReader) (fuel : ℕ) (entry : U64)
    (xrefs : List Xref) : Option (Function × List U64 × List Xref) :=
  let start : Builder := { leaders := (∅ : Std.ExtTreeSet U64).insert entry, xrefs := xrefs }
  match Worklist.run (visitBlock disasm reader fuel) fuel ⟨[entry], {entry}, start⟩ with
  | none => none
  | some b =>
    match finalize fuel entry b with
    | none => none
    | some fn => some (fn, b.callees, b.xrefs)

/-- What `finalize` returns, if it does: the blocks that the split loop ends with, sorted. -/
theorem finalize_eq_some {fuel : ℕ} {entry : U64} {b : Builder} {fn : Function} :
    finalize fuel entry b = some fn ↔ ∃ blocks, splitLoop b.leaders fuel b.blocks = some blocks ∧
      fn =
        { addr := entry
          name := defaultName entry
          size := (blocks.toList.map Prod.snd).foldl (fun size bb => size + bb.size) 0
          blocks := (blocks.toList.map Prod.snd).mergeSort fun a b => a.addr ≤ b.addr } := by
  unfold finalize
  cases hsplit : splitLoop b.leaders fuel b.blocks with
  | none => simp
  | some blocks => simp [eq_comm]

/-- What `build` returns, if it does: what `finalize` makes of the state that the worklist loop
ends in. -/
theorem build_eq_some {disasm : Disassembler} {reader : ByteReader} {fuel : ℕ} {entry : U64}
    {old xrefs : List Xref} {fn : Function} {callees : List U64} :
    build disasm reader fuel entry old = some (fn, callees, xrefs) ↔ ∃ b,
      Worklist.run (visitBlock disasm reader fuel) fuel
        ⟨[entry], {entry}, { leaders := (∅ : Std.ExtTreeSet U64).insert entry, xrefs := old }⟩ =
          some b ∧
      finalize fuel entry b = some fn ∧ callees = b.callees ∧ xrefs = b.xrefs := by
  unfold build
  dsimp only
  cases hrun : Worklist.run (visitBlock disasm reader fuel) fuel
      ⟨[entry], {entry}, { leaders := (∅ : Std.ExtTreeSet U64).insert entry, xrefs := old }⟩ with
  | none => simp
  | some b =>
      cases hfinal : finalize fuel entry b with
      | none => simp [hfinal]
      | some fn' => simp [hfinal, eq_comm]

end Irida.Analysis
