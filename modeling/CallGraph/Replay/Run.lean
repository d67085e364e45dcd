/-
  CallGraph.Replay.Run — a trace played through a tracker.

  A declared block is registered when it is about to run for the first time, and again after it was
  discarded. Each execution is recorded for the ranking. A trace is checked before anything is
  played; only a signal that returns without being handled is found on the way.
-/

import CallGraph.Replay.Summary
import CallGraph.Trace.Flaw
import CallGraph.Tracker.Discard
import CallGraph.Tracker.Enter

namespace CallGraph

/-- Why a trace cannot be played to its end. -/
inductive ReplayError where
  | flaw (flaw : Flaw)
  /-- A handler returns that is not the innermost one of its thread. -/
  | signalMismatch (event : Nat) (thread : UInt32) (handled returned : Int)
  | fault (fault : Fault)
deriving DecidableEq

/-- The text of an error; a fault may have none. -/
def ReplayError.message : ReplayError → Option String
  | .flaw f => some f.message
  | .signalMismatch event thread handled returned =>
    some s!"Event {event}: signal {returned} returned while {handled} is active on {thread}"
  | .fault f => f.message

instance : MonadLift (Except Flaw) (Except ReplayError) := ⟨fun x => x.mapError .flaw⟩
instance : MonadLift (Except Fault) (Except ReplayError) := ⟨fun x => x.mapError .fault⟩

/-- A trace that was played in part. -/
structure Replay where
  tracker : Tracker
  /-- For every declared block the id under which it is registered now, if it is. -/
  live : Array (Option BlockId)
  hotspots : Hotspots := .empty

/-- A declared block as the tracker takes it. Functions are registered in the order of their
declarations, so the number of a function is its place among them. -/
def Trace.toBlock (trace : Trace) (b : BlockDecl) : Except Fault Block :=
  match trace.functions[b.function.toNat]? with
  | none => throw .outOfRange
  | some f =>
    Block.ofExits b.addr ⟨b.function.toNat⟩ ⟨(b.object.getD f.object).toNat⟩ b.inSection b.isEntry
      b.exits

namespace Replay

def registerFunction (t : Tracker) (f : FunctionDecl) : Except Fault Tracker :=
  let (fn, t) := t.registerFunction f.name ⟨f.object.toNat⟩
  if f.skip then t.setFunctionSkip fn true else pure t

/-- Before the first event. -/
def start (trace : Trace) (config : Config) : Except Fault Replay := do
  let t ← Tracker.ofConfig config
  let tracker ← trace.functions.toList.foldlM registerFunction t
  pure { tracker, live := Array.replicate trace.blocks.size none }

/-- The id of a declared block, which is registered if it is not. -/
def resident (trace : Trace) (r : Replay) (place : Nat) (b : BlockDecl) :
    Except Fault (BlockId × Replay) :=
  match r.live[place]? with
  | none => throw .outOfRange
  | some (some id) => pure (id, r)
  | some none => do
    let block ← trace.toBlock b
    let (id, tracker) ← r.tracker.registerBlock block
    pure (id, { r with tracker, live := r.live.setIfInBounds place (some id) })

/-- A declared block is about to run and will be left through an exit. -/
def playBlock (trace : Trace) (r : Replay) (pos : Position) (place : Nat) (exit : Option Nat) :
    Except Fault Replay :=
  match trace.blocks[place]? with
  | none => throw .outOfRange
  | some b => do
    let (id, r) ← resident trace r place b
    let (anchor, t) ← r.tracker.enterBlock pos id
    let t := t.setExitsPassed (exit.getD b.finalIndex)
    let a ← t.anchors.get anchor
    pure { r with tracker := t, hotspots := r.hotspots.record a.key.context anchor }

/-- The code of a declared block is dropped; nothing happens if it is not registered. -/
def playDiscard (r : Replay) (place : Nat) : Except Fault Replay :=
  match r.live[place]? with
  | none => throw .outOfRange
  | some none => pure r
  | some (some id) => do
    let b ← r.tracker.blocks.get id
    let hotspots ← b.anchors.foldlM (fun (h : Hotspots) anchor => do
      let a ← r.tracker.anchors.get anchor
      pure (h.retire a.key.context anchor)) r.hotspots
    let (_, tracker) := r.tracker.discardBlock id
    pure { tracker, live := r.live.setIfInBounds place none, hotspots }

/-- Plays the event at place `i`. -/
def play (trace : Trace) (r : Replay) (i : Nat) : Event → Except ReplayError Replay
  | .block tid sp place exit =>
    liftM (playBlock trace r ⟨⟨tid.toNat⟩, sp⟩ place.toNat (exit.map UInt64.toNat))
  | .signal tid sig => do
    let tracker ← r.tracker.enterHandler ⟨tid.toNat⟩ sig.toInt
    pure { r with tracker }
  | .signalReturn tid sig => do
    let handled := r.tracker.handledSignal ⟨tid.toNat⟩
    if handled ≠ sig.toInt then throw (.signalMismatch i tid handled sig.toInt)
    else
      let tracker ← r.tracker.exitHandler ⟨tid.toNat⟩ sig.toInt
      pure { r with tracker }
  | .discard place => liftM (playDiscard r place.toNat)

/-- Plays all events in order. -/
def playAll (trace : Trace) (r : Replay) : Except ReplayError Replay :=
  trace.events.zipIdx.foldlM (fun r (e, i) => play trace r i e) r

/-- The name of a context and how many functions it has. -/
def describe (t : Tracker) (context : ContextId) : Except Fault (String × Nat) := do
  let name ← t.contextName context
  let c ← t.contexts.get context
  pure (name, c.chain.length)

/-- Leaves everything and sums up. -/
def close (trace : Trace) (r : Replay) : Except Fault Summary := do
  let t ← r.tracker.finish
  let hotspots ← r.hotspots.rows (describe t)
  pure
    { events := trace.events.length
      threads := t.threads.size
      functions := t.functions.size
      contexts := t.contexts.size
      anchors := t.anchors.size
      arcs := t.ledger.arcCount
      calls := t.ledger.totalCalls
      entries := t.ledger.entries
      stats := t.stats
      hotspots }

end Replay

/-- Plays a trace with given settings, which may be others than its own; its own are checked too. -/
def Trace.replay (trace : Trace) (config : Config) : Except ReplayError Summary := do
  trace.check
  config.checkFlaw
  let r ← Replay.start trace config
  let r ← r.playAll trace
  r.close trace

end CallGraph
