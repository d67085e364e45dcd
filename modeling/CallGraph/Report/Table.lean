/-
  CallGraph.Report.Table — a summary as text for a terminal.

  A few lines of counts are followed by a table of the contexts executed most. Columns
  are aligned to the right and grow with what is in them.
-/

import CallGraph.Replay.Summary
import CallGraph.Report.Amount

namespace CallGraph

/-- A text moved to the right of a column. -/
def alignRight (width : Nat) (s : String) : String := "".pushn ' ' (width - s.length) ++ s

/-- The line of a context in the table. -/
def Hotspot.tableLine (h : Hotspot) : String :=
  let executions := alignRight 8 (toString h.executions)
  let percentage := alignRight 5 (Report.tableAmount h.percentage)
  let blocks := alignRight 6 (toString h.blocks)
  s!"{executions}  {percentage}%  {blocks}  {h.context}"

namespace Summary

def countLines (s : Summary) : List String :=
  let c := s.stats
  [s!"Replayed {s.events} events on {s.threads} thread(s)",
   s!"  {c.blocksExecuted} blocks executed, {s.calls} calls over {s.arcs} arcs, "
     ++ s!"{c.returns} returns",
   s!"  {s.functions} functions, {s.contexts} contexts, {s.anchors} BBCCs "
     ++ s!"({c.anchorClones} cloned, {c.discardedAnchors} discarded)",
   s!"  reclassified: {c.promotedCalls} jumps as calls, {c.returnsAsJumps} returns as jumps, "
     ++ s!"{c.emulatedCalls} returns as calls"]

def signalLines (s : Summary) : List String :=
  if s.stats.signals = 0 then [] else [s!"  {s.stats.signals} signal handler(s) entered"]

def heading : String :=
  let executions := alignRight 8 "EXECS"
  let percentage := alignRight 6 "%"
  let blocks := alignRight 6 "BLOCKS"
  s!"{executions}  {percentage}  {blocks}  CONTEXT"

/-- The contexts executed most, as many as `limit`. If nothing was executed there is no table. -/
def tableLines (s : Summary) (limit : Nat) : List String :=
  if s.hotspots.isEmpty then []
  else
    let more := s.hotspots.length - limit
    ["", heading] ++ (s.hotspots.take limit).map Hotspot.tableLine
      ++ if more = 0 then [] else [s!"  ... {more} more context(s)"]

/-- The text, where each line has its end. -/
def table (s : Summary) (limit : Nat) : String :=
  String.join ((s.countLines ++ s.signalLines ++ s.tableLines limit).map (· ++ "\n"))

end Summary
end CallGraph
