/-
  CallGraph.Shadow.Unwinding — which frames a transfer of control leaves behind.

  The stack grows downwards: a frame recorded below the live stack pointer is gone. A frame recorded
  exactly at the stack pointer may be gone or not, and there a return is recognised by its
  target, the address that the frame's call returns to.
-/

import CallGraph.Shadow.Stack

namespace CallGraph

/-- The place, counted from one, of the first frame that was called from right before `target`,
among the leading frames recorded at `sp`. -/
def matchAt (sp target : Addr) : List Frame → Option Nat
  | [] => none
  | f :: fs =>
    if f.sp = sp then
      if f.returnTo = target then some 1 else (matchAt sp target fs).map (· + 1)
    else none

/-- How many frames a return to `target` with the stack pointer at `sp` has to leave. Nothing if it
matches no frame, and then it is no return: the stack grew below the top frame, or it is level
with it and no frame at that level was called from right before `target`. -/
def returnDepth (frames : List Frame) (sp target : Addr) : Option Nat :=
  match frames with
  | [] => none
  | f :: _ =>
    if sp < f.sp then none
    else if f.sp < sp then some 1
    else matchAt sp target frames

/-- How many of the leading frames are left behind when the stack pointer is at `sp`: all recorded
below it, and `atLevel` at most of those recorded at it. Every frame counts against `atLevel`. -/
def leftBehind (sp : Addr) : Nat → List Frame → Nat
  | _, [] => 0
  | atLevel, f :: fs =>
    if f.sp < sp ∨ (f.sp = sp ∧ 0 < atLevel) then leftBehind sp (atLevel - 1) fs + 1 else 0

def ShadowStack.returnDepth (s : ShadowStack) (sp target : Addr) : Option Nat :=
  CallGraph.returnDepth s.frames sp target

end CallGraph
