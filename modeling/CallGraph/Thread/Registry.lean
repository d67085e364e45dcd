/-
  CallGraph.Thread.Registry — the threads seen so far, one of which is running.

  `get?` is the view: a map from thread numbers to states. A thread that was not seen before starts
  in the fresh state when control first switches to it.
-/

import CallGraph.SortedMap
import CallGraph.Thread.State

namespace CallGraph

structure Registry where
  current : ThreadId := .initial
  active : ThreadState := {}
  /-- The threads that are not running, by number. -/
  parked : SortedMap ThreadState := .empty

namespace Registry

def initial : Registry := {}

def get? (r : Registry) (t : ThreadId) : Option ThreadState :=
  if t = r.current then some r.active else r.parked.get? t.num

/-- Every thread with its state. -/
def all (r : Registry) : SortedMap ThreadState := r.parked.insert r.current.num r.active

/-- Every thread seen so far, in ascending order. -/
def ids (r : Registry) : List ThreadId := r.all.keys.map ThreadId.mk

def size (r : Registry) : Nat := r.parked.size + 1

/-- Lets `t` run; the thread that ran is parked as it is. -/
def switchTo (r : Registry) (t : ThreadId) : Registry :=
  if t = r.current then r
  else
    { current := t
      active := (r.parked.get? t.num).getD .fresh
      parked := (r.parked.erase t.num).insert r.current.num r.active }

/-- Every cost anchor that a thread refers to. -/
def anchors (r : Registry) : List AnchorId := r.all.entries.flatMap (·.2.anchors)

/-- Clears the references to evicted anchors on every thread. -/
def forget (r : Registry) (evicted : AnchorId → Bool) : Registry :=
  { r with active := r.active.forget evicted, parked := r.parked.map (·.forget evicted) }

end Registry
end CallGraph
