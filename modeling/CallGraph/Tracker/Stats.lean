/-
  CallGraph.Tracker.Stats — counts of what a tracker did.

  `fields` lists the counts under the names and in the order in which they are reported.
-/

namespace CallGraph

structure Stats where
  blocksExecuted : Nat := 0
  /-- Frames pushed. -/
  calls : Nat := 0
  /-- Frames popped. -/
  returns : Nat := 0
  /-- Jumps that were taken for calls. -/
  promotedCalls : Nat := 0
  /-- Returns that matched no frame and were taken for jumps. -/
  returnsAsJumps : Nat := 0
  /-- Returns with no frame to pop, taken for calls. -/
  emulatedCalls : Nat := 0
  /-- Anchors found through the hint of the anchor before. -/
  lruHits : Nat := 0
  /-- Anchors found as the one their block used last. -/
  blockHintHits : Nat := 0
  /-- Anchors looked for in the directory. -/
  directoryProbes : Nat := 0
  /-- Anchors made for a block that had some already. -/
  anchorClones : Nat := 0
  threadSwitches : Nat := 0
  signals : Nat := 0
  discardedBlocks : Nat := 0
  discardedAnchors : Nat := 0
deriving DecidableEq

def Stats.fields (s : Stats) : List (String × Nat) :=
  [("blocks_executed", s.blocksExecuted), ("calls", s.calls), ("returns", s.returns),
   ("promoted_calls", s.promotedCalls), ("returns_as_jumps", s.returnsAsJumps),
   ("emulated_calls", s.emulatedCalls), ("lru_hits", s.lruHits),
   ("block_hint_hits", s.blockHintHits), ("directory_probes", s.directoryProbes),
   ("bbcc_clones", s.anchorClones), ("thread_switches", s.threadSwitches), ("signals", s.signals),
   ("discarded_blocks", s.discardedBlocks), ("discarded_bbccs", s.discardedAnchors)]

end CallGraph
