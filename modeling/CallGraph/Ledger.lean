/-
  CallGraph.Ledger — what the accounting side is told, and what it makes of it.

  The tracker opens a cost centre for every call arc, and reports when a function becomes active,
  when it is no longer active, and when an anchor is dropped. The ledger writes all of this down
  in order and counts the calls of every arc. An arc goes from an anchor through one of its exits
  to an anchor. Numbers of anchors are used again, so an arc of a dropped anchor never matches a
  later one.
-/

import CallGraph.Id

namespace CallGraph

structure Arc where
  source : AnchorId
  exit : Nat
  target : AnchorId
deriving DecidableEq

inductive Notice where
  | called (arc : Arc) (id : ArcId)
  /-- The function went from no open activation to one. -/
  | entered (fn : FnId)
  /-- The function went from one open activation to none. -/
  | left (fn : FnId)
  | dropped (anchor : AnchorId)
deriving DecidableEq

structure Ledger where
  /-- The arcs whose anchors are live. -/
  arcs : List (Arc × ArcId) := []
  /-- How often each arc was called, by the arc's number. -/
  calls : Array Nat := #[]
  /-- How often a function became active. -/
  entries : Nat := 0
  /-- How many anchors were dropped. -/
  dropped : Nat := 0
  /-- Everything that was reported, the latest in front. -/
  notices : List Notice := []

namespace Ledger

def empty : Ledger := {}

/-- The number of arcs that were ever opened. -/
def arcCount (l : Ledger) : Nat := l.calls.size

def callsOf (l : Ledger) (id : ArcId) : Nat := l.calls.getD id.num 0

def totalCalls (l : Ledger) : Nat := l.calls.foldl (· + ·) 0

def find? (l : Ledger) (arc : Arc) : Option ArcId :=
  (l.arcs.find? fun p => p.1 = arc).map (·.2)

def report (l : Ledger) (n : Notice) : Ledger := { l with notices := n :: l.notices }

/-- Counts a call through an arc, and opens the arc if it is not open. -/
def call (l : Ledger) (arc : Arc) : ArcId × Ledger :=
  match l.find? arc with
  | some id =>
    (id, { l with calls := l.calls.modify id.num (· + 1) }.report (.called arc id))
  | none =>
    let id : ArcId := ⟨l.calls.size⟩
    (id, { l with arcs := (arc, id) :: l.arcs, calls := l.calls.push 1 }.report (.called arc id))

def enter (l : Ledger) (fn : FnId) : Ledger :=
  { l with entries := l.entries + 1 }.report (.entered fn)

def leave (l : Ledger) (fn : FnId) : Ledger := l.report (.left fn)

/-- Forgets the arcs of an anchor. -/
def drop (l : Ledger) (anchor : AnchorId) : Ledger :=
  { l with
    arcs := l.arcs.filter fun p => p.1.source ≠ anchor ∧ p.1.target ≠ anchor
    dropped := l.dropped + 1 }.report (.dropped anchor)

end Ledger
end CallGraph
