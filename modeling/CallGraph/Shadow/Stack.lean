/-
  CallGraph.Shadow.Stack — the copy of one thread's call stack that is rebuilt from its blocks.

  A frame keeps the stack pointer seen at the call, the address that the call should return to, and
  what holds again once the frame is popped. The frame for the next call is prepared in two steps:
  first the caller's context is staged, then the frame is pushed with it. Nothing may be staged
  when a frame is popped, and nothing may be staged twice.
-/

import CallGraph.Fault

namespace CallGraph

/-- The call that a costed frame stands for. -/
structure CallArc where
  id : ArcId
  /-- The innermost function of the calling context. -/
  caller : FnId
  /-- The innermost function of the context called into. -/
  callee : FnId
deriving DecidableEq

structure Frame where
  /-- Absent for a call into skipped code. -/
  arc : Option CallArc
  /-- The stack pointer right after the call. -/
  sp : Addr
  /-- Unknown unless a call instruction pushed the frame. -/
  returnTo : Addr
  /-- The caller's context. -/
  context : Option ContextId
  /-- The caller's depth on the function stack. -/
  fnDepth : Nat
  /-- The last costed anchor, if the call came from skipped code. -/
  costed : Option AnchorId
deriving DecidableEq

/-- What the next frame will restore. -/
structure Staged where
  context : Option ContextId := none
  fnDepth : Nat := 0
deriving DecidableEq

structure ShadowStack where
  /-- Innermost first. -/
  frames : List Frame := []
  staged : Staged := {}
deriving DecidableEq

namespace ShadowStack

def empty : ShadowStack := {}

def depth (s : ShadowStack) : Nat := s.frames.length

def top? (s : ShadowStack) : Option Frame := s.frames.head?

/-- Notes the caller's context and depth for the next frame. -/
def stage (s : ShadowStack) (context : Option ContextId) (fnDepth : Nat) :
    Except Fault ShadowStack :=
  if s.staged.context.isSome then throw .stagedTwice
  else pure { s with staged := { context, fnDepth } }

/-- Makes a frame of what is staged. -/
def push (s : ShadowStack) (arc : Option CallArc) (sp returnTo : Addr) (costed : Option AnchorId) :
    ShadowStack :=
  { frames :=
      { arc, sp, returnTo, context := s.staged.context, fnDepth := s.staged.fnDepth, costed }
        :: s.frames }

/-- Takes the innermost frame off. -/
def pop (s : ShadowStack) : Except Fault (Frame × ShadowStack) :=
  match s.frames with
  | [] => throw .popOfEmptyStack
  | f :: frames => if s.staged.context.isSome then throw .popWhileStaged else pure (f, { frames })

end ShadowStack
end CallGraph
