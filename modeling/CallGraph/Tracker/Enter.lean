/-
  CallGraph.Tracker.Enter — one block is about to run.

  The transfer into the block is classified, the frames it leaves behind are popped, the function
  it enters becomes the innermost one, the anchor that the block's cost goes to is found, and a
  frame is pushed for a call. A call into a skipped function pushes a frame but keeps the
  caller's context.
-/

import CallGraph.Tracker.Billing
import CallGraph.Tracker.Handlers
import CallGraph.Tracker.Transfer

namespace CallGraph.Tracker

/-- Where control comes from on the running thread. -/
def departure (t : Tracker) : Except Fault (Option Departure) :=
  match t.thread.exec.anchor with
  | none => pure none
  | some anchor => do
    let a ← t.anchors.get anchor
    let r ← t.blocks.get a.key.block
    let (exit, e) := r.block.exitAfter t.thread.exec.exitsPassed
    pure (some { anchor, block := r.block, exit, kind := e.kind })

/-- Counts a block and what its transfer was taken for. -/
def countTransfer (t : Tracker) (x : Transfer) : Tracker :=
  { t with
    stats :=
      { t.stats with
        blocksExecuted := t.stats.blocksExecuted + 1
        promotedCalls := t.stats.promotedCalls + x.promoted.toNat
        returnsAsJumps := t.stats.returnsAsJumps + x.returnAsJump.toNat
        emulatedCalls := t.stats.emulatedCalls + x.emulated.toNat } }

/-- The anchor and the exit that a call is billed to: inside skipped code the final exit of the last
costed block, otherwise the exit taken. -/
def callSource (t : Tracker) (d : Departure) : Except Fault (AnchorId × Nat) :=
  match t.thread.exec.costed with
  | none => pure (d.anchor, d.exit)
  | some ancestor => do
    let a ← t.anchors.get ancestor
    let r ← t.blocks.get a.key.block
    pure (ancestor, r.block.finalIndex)

/-- Notes what ran after the last anchor, and pushes the frame of a call. -/
def link (t : Tracker) (source : Option Departure) (x : Transfer) (target : AnchorId)
    (skip : Bool) : Except Fault Tracker :=
  match source with
  | none => pure t
  | some d => do
    let anchors ← t.anchors.setNext d.anchor target
    let t := { t with anchors }
    if x.enters then
      let (source, exit) ← t.callSource d
      t.pushFrame source exit target x.sp skip
    else pure t

/-- A live block is about to run at a position. Returns the anchor that its cost goes to. -/
def enterBlock (t : Tracker) (pos : Position) (id : BlockId) :
    Except Fault (AnchorId × Tracker) := do
  let t := t.switchTo pos.thread
  let source ← t.departure
  let r ← t.blocks.get id
  let x := Transfer.classify t.config.tailCalls source r.block pos.sp t.thread.shadow.frames
    t.thread.bottom
  let t ← popCalls x.pops (t.countTransfer x)
  let skip ←
    if x.enters then do
      let f ← t.functions.get r.block.fn
      pure f.skip
    else pure false
  let t ←
    if (x.enters && !skip) || t.thread.exec.context.isNone then t.pushContext r.block.fn else pure t
  match t.thread.exec.context with
  | none => throw (.noActiveContext id)
  | some context =>
    let key : AnchorKey := { block := id, context, thread := pos.thread }
    let (anchor, t) ← t.billTo key (source.map (·.anchor))
    let t ← t.link source x anchor skip
    let s := t.thread
    pure (anchor,
      t.setThread { s with exec := { s.exec with anchor := some anchor, exitsPassed := 0 } })

end CallGraph.Tracker
