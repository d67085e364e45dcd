/-
  CallGraph.Tracker.Handlers — signal handlers, and calls that leave them.

  A signal starts a fresh chain of calls on the interrupted thread: what was interrupted is
  saved, a marker goes onto the function stack, and the first block of the handler is treated
  like the first block of a thread. When the handler returns, the frames it left are popped and
  the saved state is restored. A handler is also left, without a return of its own, when a frame
  of the code it interrupted is popped.
-/

import CallGraph.Tracker.Calls

namespace CallGraph.Tracker

/-- Leaves the innermost handler of the running thread. -/
def leaveHandler (t : Tracker) : Except Fault Tracker :=
  match t.thread.handlers with
  | [] => throw (.noHandler t.threads.current)
  | h :: handlers => do
    let t ← popFrames (t.thread.shadow.depth - h.bottom) t
    -- The handler's first function was counted when it was entered.
    let t ← t.leaveContext t.thread.exec.context
    let fns ← t.thread.fns.cutTo h.fnDepth
    pure (t.setThread { t.thread with fns, handlers, exec := h.interrupted })

/-- Leaves the `n` innermost handlers. -/
def leaveHandlers : Nat → Tracker → Except Fault Tracker
  | 0, t => pure t
  | n + 1, t => do
    let t ← t.leaveHandler
    leaveHandlers n t

/-- Pops one frame, after leaving the handlers that have no frame above it. -/
def popCall (t : Tracker) : Except Fault Tracker := do
  let s := t.thread
  let t ← leaveHandlers
    (ThreadState.exhaustedHandlers s.shadow.depth s.exec.signal s.handlers) t
  t.popFrame

/-- Pops `n` frames, and leaves the handlers between them. -/
def popCalls : Nat → Tracker → Except Fault Tracker
  | 0, t => pure t
  | n + 1, t => do
    let t ← t.popCall
    popCalls n t

/-- A handler for a signal is about to run on a thread. -/
def enterHandler (t : Tracker) (thread : ThreadId) (signal : Int) : Except Fault Tracker :=
  if signal ≤ 0 then throw (.signalNotPositive signal)
  else
    let t := t.switchTo thread
    let s := t.thread
    let h : Handler :=
      { interrupted := s.exec, bottom := s.shadow.depth, fnDepth := s.fns.depth }
    let t := t.setThread
      { s with handlers := h :: s.handlers, exec := { signal }, fns := s.fns.push none }
    pure { t with stats := { t.stats with signals := t.stats.signals + 1 } }

/-- The handler of a signal returned on a thread. -/
def exitHandler (t : Tracker) (thread : ThreadId) (signal : Int) : Except Fault Tracker :=
  let t := t.switchTo thread
  let handled := t.thread.exec.signal
  if handled ≠ signal then throw (.signalNotHandled signal thread handled) else t.leaveHandler

/-- Leaves everything that one thread is in: its handlers, its frames and its first function. -/
def finishThread (t : Tracker) (thread : ThreadId) : Except Fault Tracker := do
  let t := { t with threads := t.threads.switchTo thread }
  let t ← leaveHandlers t.thread.handlers.length t
  let t ← popFrames t.thread.shadow.depth t
  let t ← t.leaveContext t.thread.exec.context
  let fns ← t.thread.fns.cutTo 0
  pure (t.setThread { t.thread with fns, exec := {} })

/-- Leaves everything on every thread, in ascending order. -/
def finish (t : Tracker) : Except Fault Tracker := t.threads.ids.foldlM finishThread t

end CallGraph.Tracker
