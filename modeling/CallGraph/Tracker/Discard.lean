/-
  CallGraph.Tracker.Discard — a block whose code is gone.

  All anchors of the block leave the directory, the accounting side drops them one by one, and
  every reference to them is cleared: the threads' and the hints'. Nothing else changes, and
  nothing at all if the block is not live.
-/

import CallGraph.Tracker.Basic

namespace CallGraph.Tracker

/-- Takes one anchor out of the directory and reports it. -/
def dropAnchor (t : Tracker) (id : AnchorId) : Tracker :=
  { t with
    anchors := (t.anchors.remove? id).elim t.anchors (·.2)
    ledger := t.ledger.drop id }

/-- Drops a block. False if there is no such live block. -/
def discardBlock (t : Tracker) (id : BlockId) : Bool × Tracker :=
  match t.blocks.remove? id with
  | none => (false, t)
  | some (r, blocks) =>
    let t := r.anchors.foldl dropAnchor { t with blocks }
    let evicted := fun a => r.anchors.contains a
    (true,
      { t with
        threads := t.threads.forget evicted
        anchors := t.anchors.forgetHints evicted
        stats :=
          { t.stats with
            discardedBlocks := t.stats.discardedBlocks + 1
            discardedAnchors := t.stats.discardedAnchors + r.anchors.length } })

end CallGraph.Tracker
