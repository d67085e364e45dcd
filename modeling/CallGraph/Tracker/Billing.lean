/-
  CallGraph.Tracker.Billing — the cost anchor of a block in a context on a thread.

  Two hints are tried before the directory is asked: the anchor that followed the last one before,
  and the anchor that the block used last. A hint may be out of date and is only taken if it still
  stands for the anchor that is wanted. An anchor is made if there is none.
-/

import CallGraph.Tracker.Basic

namespace CallGraph.Tracker

/-- Makes the anchor of a key and notes it at the block. -/
def spawnAnchor (t : Tracker) (key : AnchorKey) : Except Fault (AnchorId × Tracker) := do
  let (id, anchors) ← t.anchors.spawn key
  pure (id, { t with anchors, blocks := t.blocks.addAnchor key.block id })

/-- The anchor that followed the last one before. -/
def hintAfter (t : Tracker) (last : Option AnchorId) : Except Fault (Option AnchorId) :=
  match last with
  | none => pure none
  | some id => do
    let a ← t.anchors.get id
    pure a.next

/-- The anchor of a key, where `last` is the anchor that the thread used last. -/
def billTo (t : Tracker) (key : AnchorKey) (last : Option AnchorId) :
    Except Fault (AnchorId × Tracker) := do
  let r ← t.blocks.get key.block
  if r.anchors.isEmpty then t.spawnAnchor key
  else
    let hint ← t.hintAfter last
    match hint.filter fun id => t.anchors.holds id key with
    | some id =>
      pure (id, { t with
                  blocks := t.blocks.setRecent key.block id
                  stats := { t.stats with lruHits := t.stats.lruHits + 1 } })
    | none =>
      match r.recent.filter fun id => t.anchors.holds id key with
      | some id =>
        pure (id, { t with
                    blocks := t.blocks.setRecent key.block id
                    stats := { t.stats with blockHintHits := t.stats.blockHintHits + 1 } })
      | none =>
        let t := { t with stats := { t.stats with directoryProbes := t.stats.directoryProbes + 1 } }
        match ← t.anchors.find key with
        | some id => pure (id, { t with blocks := t.blocks.setRecent key.block id })
        | none =>
          let t := { t with stats := { t.stats with anchorClones := t.stats.anchorClones + 1 } }
          t.spawnAnchor key

end CallGraph.Tracker
