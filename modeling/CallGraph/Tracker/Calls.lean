/-
  CallGraph.Tracker.Calls — entering and leaving functions on the running thread.

  The shadow stack, the function stack and the activations are kept in step here. A call that
  crosses into another function opens one activation and its return closes it; a direct call of a
  function to itself opens none.
-/

import CallGraph.Tracker.Basic

namespace CallGraph.Tracker

/-- Stages the caller's context and makes `fn` the innermost function. -/
def pushContext (t : Tracker) (fn : FnId) : Except Fault Tracker := do
  let s := t.thread
  let shadow ← s.shadow.stage s.exec.context s.fns.depth
  if s.fns.top? = some fn then
    pure (t.setThread { s with shadow })
  else
    let t ← if s.fns.top?.isNone then t.enterFunction fn else pure t
    let fns := s.fns.push (some fn)
    let (context, contexts, functions) ← t.contexts.intern t.functions fns.chain
    pure ({ t with contexts, functions }.setThread
      { s with shadow, fns, exec := { s.exec with context } })

/-- The innermost function of an anchor's context. -/
def functionOf (t : Tracker) (anchor : AnchorId) : Except Fault FnId := do
  let a ← t.anchors.get anchor
  let c ← t.contexts.get a.key.context
  pure c.top

/-- A call out of skipped code comes from the last costed anchor, and the caller's context is
staged for every call with an arc. -/
def checkCall (t : Tracker) (source : AnchorId) : Except Fault Unit :=
  match t.thread.exec.costed.filter fun ancestor => ancestor ≠ source with
  | some ancestor => throw (.callNotFromCosted ancestor)
  | none => if t.thread.shadow.staged.context.isNone then throw .callNotStaged else pure ()

/-- Counts a call between costed anchors, and opens an activation if it crosses into another
function. -/
def openArc (t : Tracker) (source : AnchorId) (exit : Nat) (target : AnchorId) :
    Except Fault (CallArc × Tracker) := do
  t.checkCall source
  let caller ← t.functionOf source
  let callee ← t.functionOf target
  let (id, ledger) := t.ledger.call { source, exit, target }
  let t := { t with ledger }
  let t ← if caller ≠ callee then t.enterFunction callee else pure t
  pure ({ id, caller, callee }, t)

/-- The return address of a call that an anchor's block made through one of its exits. -/
def returnAddressOf (t : Tracker) (source : AnchorId) (exit : Nat) : Except Fault Addr := do
  let a ← t.anchors.get source
  let r ← t.blocks.get a.key.block
  let addr ← r.block.returnAddress exit
  pure (addr.getD .unknown)

/-- Pushes the frame of a call, with an arc unless the call is into skipped code. From then on the
last costed anchor is remembered as long as skipped code runs. -/
def pushFrame (t : Tracker) (source : AnchorId) (exit : Nat) (target : AnchorId) (sp : Addr)
    (skip : Bool) : Except Fault Tracker := do
  let (arc, t) ←
    if skip then pure (none, t)
    else do
      let (arc, t) ← t.openArc source exit target
      pure (some arc, t)
  let returnTo ← t.returnAddressOf source exit
  let s := t.thread
  let costed := if skip then s.exec.costed.or (some source) else none
  let t := t.setThread
    { s with
      shadow := s.shadow.push arc sp returnTo s.exec.costed
      exec := { s.exec with costed } }
  pure { t with stats := { t.stats with calls := t.stats.calls + 1 } }

/-- Pops the innermost frame and restores what the caller had. -/
def popFrame (t : Tracker) : Except Fault Tracker := do
  let s := t.thread
  let (f, shadow) ← s.shadow.pop
  let s := { s with shadow, exec := { s.exec with costed := f.costed } }
  let t ←
    match f.arc with
    | none => pure (t.setThread s)
    | some arc =>
      match f.context with
      | none => throw (.frameWithoutContext (shadow.depth + 1))
      | some context => do
        let fns ← s.fns.cutTo f.fnDepth
        let t := t.setThread { s with fns, exec := { s.exec with context := some context } }
        if arc.caller ≠ arc.callee then t.leaveFunction arc.callee else pure t
  pure { t with stats := { t.stats with returns := t.stats.returns + 1 } }

/-- Pops the `n` innermost frames. -/
def popFrames : Nat → Tracker → Except Fault Tracker
  | 0, t => pure t
  | n + 1, t => do
    let t ← t.popFrame
    popFrames n t

end CallGraph.Tracker
