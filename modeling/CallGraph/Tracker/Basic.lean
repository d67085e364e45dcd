/-
  CallGraph.Tracker.Basic — the state from which the call graph of a run is rebuilt.

  A tracker owns the functions and blocks of the program, the interned call chains, the cost
  anchors, the threads, the ledger of the accounting side and its own counts. This module makes the
  initial state, registers functions and blocks, and answers questions about the state.
-/

import CallGraph.Anchor.Directory
import CallGraph.Chain.Context
import CallGraph.Config
import CallGraph.Image.Block
import CallGraph.Ledger
import CallGraph.Thread.Registry
import CallGraph.Tracker.Stats

namespace CallGraph

structure Tracker where
  config : Config
  functions : FunctionTable := .empty
  blocks : BlockTable := .empty
  contexts : ContextTable
  anchors : Directory
  threads : Registry := .initial
  stats : Stats := {}
  ledger : Ledger := .empty

/-- Where the program is: the thread that runs, and its stack pointer. -/
structure Position where
  thread : ThreadId := .initial
  sp : Addr := .unknown

namespace Tracker

/-- Asks for room. -/
def reserve (bytes : Nat) (count : UInt64) : Except Fault Unit :=
  if Config.hasRoom bytes count then pure () else throw .capacityOverflow

/-- The tracker before anything ran. All threads ask for the same room, so if there is too little for
the stacks of one, it shows here. -/
def ofConfig (config : Config) : Except Fault Tracker := do
  let limit := config.contextDepth.map UInt64.toNat
  -- A bound of no function is refused before the room of its table is asked for.
  if limit = some 0 then pure () else reserve Config.bucketBytes config.contextBuckets
  let contexts ← ContextTable.ofBuckets config.contextBuckets.toNat limit
  reserve Config.bucketBytes config.anchorBuckets
  let anchors ← Directory.ofBuckets config.anchorBuckets.toNat
  reserve Config.frameBytes config.callStackCapacity
  reserve Config.slotBytes config.fnStackCapacity
  pure { config, contexts, anchors }

/-! ## The running thread -/

def thread (t : Tracker) : ThreadState := t.threads.active

def setThread (t : Tracker) (s : ThreadState) : Tracker :=
  { t with threads := { t.threads with active := s } }

/-- Lets a thread run, and counts the switch if another one ran. -/
def switchTo (t : Tracker) (thread : ThreadId) : Tracker :=
  if thread = t.threads.current then t
  else
    { t with
      threads := t.threads.switchTo thread
      stats := { t.stats with threadSwitches := t.stats.threadSwitches + 1 } }

/-- Notes how many side exits of the block that runs now are passed. -/
def setExitsPassed (t : Tracker) (n : Nat) : Tracker :=
  t.setThread { t.thread with exec := { t.thread.exec with exitsPassed := n } }

/-! ## The program -/

/-- Registers a function; it is skipped if the settings name it. -/
def registerFunction (t : Tracker) (name : String) (object : ObjId) : FnId × Tracker :=
  let (fn, functions) := t.functions.register name object (t.config.isSkipped name)
  (fn, { t with functions })

def setFunctionSkip (t : Tracker) (fn : FnId) (skip : Bool) : Except Fault Tracker := do
  let functions ← t.functions.setSkip fn skip
  pure { t with functions }

/-- Registers a block of a registered function. -/
def registerBlock (t : Tracker) (block : Block) : Except Fault (BlockId × Tracker) :=
  if block.fn.num < t.functions.size then
    let (id, blocks) := t.blocks.insert block
    pure (id, { t with blocks })
  else throw (.blockWithoutFunction block.addr block.fn)

/-! ## Activations -/

/-- Opens an activation of a function and reports it if it is the only one. -/
def enterFunction (t : Tracker) (fn : FnId) : Except Fault Tracker := do
  let (first, functions) ← t.functions.enter fn
  pure { t with functions, ledger := if first then t.ledger.enter fn else t.ledger }

/-- Closes an activation of a function and reports it if none is left. -/
def leaveFunction (t : Tracker) (fn : FnId) : Except Fault Tracker := do
  let (last, functions) ← t.functions.leave fn
  pure { t with functions, ledger := if last then t.ledger.leave fn else t.ledger }

/-- Closes the activation of the innermost function of a context, if there is one. -/
def leaveContext (t : Tracker) (context : Option ContextId) : Except Fault Tracker :=
  match context with
  | none => pure t
  | some id => do
    let c ← t.contexts.get id
    t.leaveFunction c.top

/-! ## Questions -/

/-- The names of a context's functions, innermost first. -/
def contextNames (t : Tracker) (id : ContextId) : Except Fault (List String) := do
  let c ← t.contexts.get id
  c.chain.mapM fun fn => do
    let f ← t.functions.get fn
    pure f.name

/-- The name of a context: the names of its functions with an apostrophe between them. -/
def contextName (t : Tracker) (id : ContextId) : Except Fault String := do
  let names ← t.contextNames id
  pure ("\x27".intercalate names)

/-- The signal handled on a thread; 0 if there is none. -/
def handledSignal (t : Tracker) (thread : ThreadId) : Int :=
  match t.threads.get? thread with
  | none => 0
  | some s => s.exec.signal

end Tracker
end CallGraph
