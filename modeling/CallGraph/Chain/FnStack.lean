/-
  CallGraph.Chain.FnStack — the functions that led one thread to where it is.

  A context is the top part of this stack. A direct call of a function to itself adds nothing, so
  the stack is no copy of the call stack. Where a signal handler starts, a marker separates its
  functions from the interrupted ones. The stack has a bottom below all its slots, so that
  depth 0 means that no function is known.
-/

import CallGraph.Fault

namespace CallGraph

structure FnStack where
  /-- The functions, innermost first; `none` is the marker below a handler's functions. -/
  slots : List (Option FnId) := []
deriving DecidableEq

namespace FnStack

def empty : FnStack := {}

def depth (s : FnStack) : Nat := s.slots.length

/-- The innermost function; nothing at the bottom and right above a marker. -/
def top? (s : FnStack) : Option FnId := s.slots.head?.join

def push (s : FnStack) (slot : Option FnId) : FnStack := ⟨slot :: s.slots⟩

/-- Goes back to a depth noted before. A depth above the top is a fault. -/
def cutTo (s : FnStack) (depth : Nat) : Except Fault FnStack :=
  if s.depth < depth then throw (.cutAboveTop depth s.depth)
  else pure ⟨s.slots.drop (s.depth - depth)⟩

/-- The functions from the innermost down to the nearest marker. -/
def chain (s : FnStack) : List FnId := (s.slots.takeWhile Option.isSome).filterMap id

end FnStack
end CallGraph
