/-
  CallGraph.Image.Block — basic blocks and the table of the blocks that are live.

  A block is a straight run of instructions with one entry. The table keeps for every live block
  the cost anchors made for it, one for each context and thread that it ran in, and the anchor that
  its cost went to last. A slot of the table is used again after its block was discarded.
-/

import CallGraph.Arena
import CallGraph.Fault
import CallGraph.Image.Exit

namespace CallGraph

/-- A basic block as the front end decoded it. -/
structure Block where
  addr : Addr
  fn : FnId
  object : ObjId
  inSection : SectionKind
  /-- The first block of its function. -/
  isEntry : Bool
  /-- Conditional exits in program order. -/
  sideExits : List Exit
  finalExit : Exit
deriving DecidableEq

namespace Block

/-- The block with the given exits, the last of which is the final one. -/
def ofExits (addr : Addr) (fn : FnId) (object : ObjId) (inSection : SectionKind) (isEntry : Bool)
    (exits : List Exit) : Except Fault Block :=
  match exits.getLast? with
  | none => throw (.blockWithoutExit addr)
  | some finalExit =>
    pure { addr, fn, object, inSection, isEntry, sideExits := exits.dropLast, finalExit }

def exits (b : Block) : List Exit := b.sideExits ++ [b.finalExit]

/-- The place of the final exit among the exits, which is the number of side exits. -/
def finalIndex (b : Block) : Nat := b.sideExits.length

/-- The exit taken after passing `n` side exits, with its place; past the last it is the final
one. -/
def exitAfter (b : Block) (n : Nat) : Nat × Exit :=
  match b.sideExits[n]? with
  | some e => (n, e)
  | none => (b.finalIndex, b.finalExit)

/-- Where a call through the `i`-th exit returns to; nothing if that exit is no call. -/
def returnAddress (b : Block) (i : Nat) : Except Fault (Option Addr) :=
  match b.exits[i]? with
  | none => throw .outOfRange
  | some e => pure (if e.kind = .call then some (b.addr.offset e.next) else none)

end Block

/-- A block in the table. -/
structure Resident where
  block : Block
  /-- The anchors made for the block, oldest first. -/
  anchors : List AnchorId := []
  /-- The anchor that the block's cost went to last. -/
  recent : Option AnchorId := none

structure BlockTable where
  arena : Arena Resident := .empty

namespace BlockTable

def empty : BlockTable := {}

def size (t : BlockTable) : Nat := t.arena.live

def insert (t : BlockTable) (b : Block) : BlockId × BlockTable :=
  let (i, arena) := t.arena.insert { block := b }
  (⟨i⟩, ⟨arena⟩)

def get? (t : BlockTable) (id : BlockId) : Option Resident := t.arena.get? id.num

def contains (t : BlockTable) (id : BlockId) : Bool := t.arena.contains id.num

/-- The block under an id. Using the id of a discarded block is a fault. -/
def get (t : BlockTable) (id : BlockId) : Except Fault Resident :=
  match t.get? id with
  | none => throw (.deadBlock id)
  | some r => pure r

def remove? (t : BlockTable) (id : BlockId) : Option (Resident × BlockTable) :=
  (t.arena.remove? id.num).map fun (r, arena) => (r, ⟨arena⟩)

/-- Notes a new anchor of a block, to which its cost goes now. -/
def addAnchor (t : BlockTable) (id : BlockId) (anchor : AnchorId) : BlockTable :=
  ⟨t.arena.modify id.num fun r =>
    { r with anchors := r.anchors ++ [anchor], recent := some anchor }⟩

/-- Notes which anchor a block's cost goes to now. -/
def setRecent (t : BlockTable) (id : BlockId) (anchor : AnchorId) : BlockTable :=
  ⟨t.arena.modify id.num fun r => { r with recent := some anchor }⟩

end BlockTable
end CallGraph
