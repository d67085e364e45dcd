/-
  CallGraph.Thread.State — what is known of one thread.

  A thread has its shadow stack, its function stack, what carries over from one block to the next,
  and the signal handlers it is in. `anchors` lists every cost anchor that the state refers to;
  `forget` clears the references to evicted ones and changes nothing else.
-/

import CallGraph.Chain.FnStack
import CallGraph.Shadow.Stack

namespace CallGraph

/-- What carries over from one block to the next. -/
structure Exec where
  /-- The signal being handled; 0 outside handlers. -/
  signal : Int := 0
  /-- The active context. -/
  context : Option ContextId := none
  /-- The anchor of the block that ran last; nothing at the start of a thread or a handler. -/
  anchor : Option AnchorId := none
  /-- How many side exits of that block were passed. -/
  exitsPassed : Nat := 0
  /-- Inside skipped code, the last anchor outside it. -/
  costed : Option AnchorId := none
deriving DecidableEq

/-- A signal handler that has not returned. -/
structure Handler where
  interrupted : Exec
  /-- The depth of the shadow stack when the handler started. -/
  bottom : Nat
  /-- The depth of the function stack below the handler's marker. -/
  fnDepth : Nat
deriving DecidableEq

structure ThreadState where
  shadow : ShadowStack := .empty
  fns : FnStack := .empty
  exec : Exec := {}
  /-- Innermost first. -/
  handlers : List Handler := []
deriving DecidableEq

/-- The reference, unless it is to an evicted anchor. -/
def keepLive (evicted : AnchorId → Bool) (a : Option AnchorId) : Option AnchorId :=
  a.filter fun id => !evicted id

namespace Exec

def anchors (e : Exec) : List AnchorId := e.anchor.toList ++ e.costed.toList

def forget (e : Exec) (evicted : AnchorId → Bool) : Exec :=
  { e with anchor := keepLive evicted e.anchor, costed := keepLive evicted e.costed }

end Exec

namespace ThreadState

def fresh : ThreadState := {}

def anchors (s : ThreadState) : List AnchorId :=
  s.exec.anchors ++ s.handlers.flatMap (·.interrupted.anchors)
    ++ s.shadow.frames.flatMap (·.costed.toList)

def forget (s : ThreadState) (evicted : AnchorId → Bool) : ThreadState :=
  { s with
    exec := s.exec.forget evicted
    handlers := s.handlers.map fun h => { h with interrupted := h.interrupted.forget evicted }
    shadow :=
      { s.shadow with
        frames := s.shadow.frames.map fun f => { f with costed := keepLive evicted f.costed } } }

/-- The depth of the shadow stack above which frames belong to the innermost handler. -/
def bottom (s : ThreadState) : Nat :=
  match s.handlers with
  | [] => 0
  | h :: _ => h.bottom

/-- How many handlers have no frame left of `depth` frames, counted from the innermost: a frame
popped there belongs to the code they interrupted. -/
def exhaustedHandlers (depth : Nat) (signal : Int) : List Handler → Nat
  | [] => 0
  | h :: hs =>
    if 0 < signal ∧ h.bottom = depth then exhaustedHandlers depth h.interrupted.signal hs + 1 else 0

end ThreadState
end CallGraph
