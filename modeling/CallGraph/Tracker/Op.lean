/-
  CallGraph.Tracker.Op — a run of a tracker as a list of operations.

  `step` is the whole interface of a tracker in one function, and `run` performs operations one
  after the other until one of them is a fault. What holds in every state that a run can reach is
  stated about these.
-/

import CallGraph.Tracker.Discard
import CallGraph.Tracker.Enter

namespace CallGraph.Tracker

inductive Op where
  | registerFunction (name : String) (object : ObjId)
  | setFunctionSkip (fn : FnId) (skip : Bool)
  | registerBlock (block : Block)
  | enterBlock (pos : Position) (block : BlockId)
  | setExitsPassed (n : Nat)
  | enterHandler (thread : ThreadId) (signal : Int)
  | exitHandler (thread : ThreadId) (signal : Int)
  | discardBlock (block : BlockId)
  | finish

/-- What an operation answers. -/
inductive Reply where
  | done
  | function (fn : FnId)
  | block (block : BlockId)
  | billed (anchor : AnchorId)
  | discarded (wasLive : Bool)

def step (t : Tracker) : Op → Except Fault (Reply × Tracker)
  | .registerFunction name object =>
    let (fn, t) := t.registerFunction name object
    pure (.function fn, t)
  | .setFunctionSkip fn skip => do
    let t ← t.setFunctionSkip fn skip
    pure (.done, t)
  | .registerBlock block => do
    let (id, t) ← t.registerBlock block
    pure (.block id, t)
  | .enterBlock pos block => do
    let (anchor, t) ← t.enterBlock pos block
    pure (.billed anchor, t)
  | .setExitsPassed n => pure (.done, t.setExitsPassed n)
  | .enterHandler thread signal => do
    let t ← t.enterHandler thread signal
    pure (.done, t)
  | .exitHandler thread signal => do
    let t ← t.exitHandler thread signal
    pure (.done, t)
  | .discardBlock block =>
    let (wasLive, t) := t.discardBlock block
    pure (.discarded wasLive, t)
  | .finish => do
    let t ← t.finish
    pure (.done, t)

def run (t : Tracker) (ops : List Op) : Except Fault Tracker :=
  ops.foldlM (fun t op => do
    let (_, t) ← t.step op
    pure t) t

end CallGraph.Tracker
