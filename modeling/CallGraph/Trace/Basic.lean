/-
  CallGraph.Trace.Basic — a recorded run.

  A trace lists the objects, functions and blocks of a program and then, in order, what happened:
  a block was about to run, a signal handler started or returned, the code of a block was dropped.
  Objects, functions and blocks are referred to by their places in the lists.
-/

import CallGraph.Config
import CallGraph.Id
import CallGraph.Image.Exit

namespace CallGraph

structure FunctionDecl where
  name : String
  object : UInt32
  /-- Calls into the function are rolled up into the caller's context. -/
  skip : Bool := false
deriving DecidableEq

structure BlockDecl where
  addr : Addr
  function : UInt32
  /-- If absent, the object of the block's function. -/
  object : Option UInt32 := none
  inSection : SectionKind := .unknown
  isEntry : Bool := false
  /-- The side exits in program order, then the final exit. -/
  exits : List Exit
deriving DecidableEq

/-- The place of the final exit, which is the number of side exits. -/
def BlockDecl.finalIndex (b : BlockDecl) : Nat := b.exits.length - 1

inductive Event where
  /-- A block is about to run. The exit is the one it will be left through; if it is not given,
  the final one. -/
  | block (thread : UInt32) (sp : Addr) (block : UInt32) (exit : Option UInt64)
  | signal (thread : UInt32) (signal : Int32)
  | signalReturn (thread : UInt32) (signal : Int32)
  /-- The code of a block was unmapped or replaced. -/
  | discard (block : UInt32)
deriving DecidableEq

structure Trace where
  config : Config := {}
  objects : Array String := #[]
  functions : Array FunctionDecl := #[]
  blocks : Array BlockDecl := #[]
  events : List Event := []
deriving DecidableEq

end CallGraph
