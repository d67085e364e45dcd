/-
  CallGraph.Replay.Summary — what a replay found out.

  Beside the counts, which are taken after everything was left at the end of the run, a summary says
  how often the contexts of the run were executed, and in how many blocks.

  A context's blocks are told apart by their anchors. The number of an anchor may stand for another
  block after the first was dropped, so an anchor is retired when it is dropped and counts from then
  on without its number. Contexts are ranked by their executions, equals in the order of their
  numbers, so the ranking is determined by what was recorded.
-/

import CallGraph.Id
import CallGraph.SortedMap
import CallGraph.Tracker.Stats

namespace CallGraph

/-- What was recorded for one context. -/
structure Tally where
  executions : Nat := 0
  /-- The anchors billed that were not retired since. -/
  live : List AnchorId := []
  /-- How many anchors were retired. -/
  retired : Nat := 0

namespace Tally

/-- How many blocks were billed. -/
def blocks (t : Tally) : Nat := t.live.length + t.retired

def record (t : Tally) (anchor : AnchorId) : Tally :=
  { t with
    executions := t.executions + 1
    live := if t.live.contains anchor then t.live else anchor :: t.live }

def retire (t : Tally) (anchor : AnchorId) : Tally :=
  if t.live.contains anchor then { t with live := t.live.erase anchor, retired := t.retired + 1 }
  else t

end Tally

/-- A context in the ranking. -/
structure Hotspot where
  /-- The name of the context. -/
  context : String
  /-- How many functions tell the context from others. -/
  depth : Nat
  blocks : Nat
  executions : Nat
  /-- The executions of all contexts together. -/
  total : Nat
deriving DecidableEq

/-- The part of all executions that the context has, in percent. -/
def Hotspot.percentage (h : Hotspot) : Float :=
  if h.total = 0 then 0.0 else Float.ofNat h.executions / Float.ofNat h.total * 100.0

structure Hotspots where
  tallies : SortedMap Tally := .empty
  /-- How many executions were recorded. -/
  total : Nat := 0

namespace Hotspots

def empty : Hotspots := {}

/-- One execution in a context, billed to an anchor. -/
def record (h : Hotspots) (context : ContextId) (anchor : AnchorId) : Hotspots :=
  { tallies :=
      h.tallies.insert context.num (((h.tallies.get? context.num).getD {}).record anchor)
    total := h.total + 1 }

/-- An anchor of a context is about to be dropped. -/
def retire (h : Hotspots) (context : ContextId) (anchor : AnchorId) : Hotspots :=
  match h.tallies.get? context.num with
  | none => h
  | some t => { h with tallies := h.tallies.insert context.num (t.retire anchor) }

/-- More executions come first, and of equally many the lower number. -/
def ranksBefore (p q : Nat × Tally) : Bool :=
  q.2.executions < p.2.executions || (q.2.executions = p.2.executions && p.1 ≤ q.1)

/-- The contexts recorded, in the order of the ranking. -/
def ranked (h : Hotspots) : List (ContextId × Tally) :=
  (h.tallies.entries.mergeSort ranksBefore).map fun (c, t) => (⟨c⟩, t)

/-- One place of the ranking, where the context's name and depth are known. -/
def row (h : Hotspots) (context : String) (depth : Nat) (t : Tally) : Hotspot :=
  { context, depth, blocks := t.blocks, executions := t.executions, total := h.total }

/-- The ranking, where `describe` tells a context's name and depth. -/
def rows {m : Type → Type} [Monad m] (h : Hotspots) (describe : ContextId → m (String × Nat)) :
    m (List Hotspot) :=
  h.ranked.mapM fun (c, t) => do
    let (name, depth) ← describe c
    pure (h.row name depth t)

end Hotspots

structure Summary where
  /-- The events of the trace. -/
  events : Nat
  threads : Nat
  functions : Nat
  contexts : Nat
  /-- The anchors that are live. -/
  anchors : Nat
  /-- The call arcs that were opened. -/
  arcs : Nat
  /-- The calls over arcs. -/
  calls : Nat
  /-- How often a function became active. -/
  entries : Nat
  stats : Stats
  hotspots : List Hotspot
deriving DecidableEq

end CallGraph
