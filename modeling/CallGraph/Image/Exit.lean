/-
  CallGraph.Image.Exit — how control can leave a basic block.

  A block ends in one final exit and may pass side exits before it: conditional branches out of its
  middle. The kind of an exit is what the instruction looks like; what a transfer through it turns
  out to be is decided when it happens.
-/

namespace CallGraph

/-- What the exiting instruction looks like. -/
inductive ExitKind where
  /-- Control goes on at the next instruction in memory. -/
  | fallThrough
  | jump
  | call
  | ret
deriving DecidableEq

/-- The kind of object section that a block lies in. -/
inductive SectionKind where
  | unknown
  | text
  | data
  | bss
  | got
  | plt
  | opd
  | gotPlt
deriving DecidableEq

/-- One exit: its kind, where in the block the exiting instruction stands, and how long it is. -/
structure Exit where
  kind : ExitKind
  offset : UInt32 := 0
  size : UInt32 := 0
deriving DecidableEq

/-- How far into the block the instruction after the exiting one starts. -/
def Exit.next (e : Exit) : UInt64 := e.offset.toUInt64 + e.size.toUInt64

end CallGraph
