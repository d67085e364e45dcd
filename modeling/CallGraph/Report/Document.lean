/-
  CallGraph.Report.Document — a summary as a JSON document.
-/

import CallGraph.Json.Writer
import CallGraph.Replay.Summary
import CallGraph.Report.Amount

namespace CallGraph

open Json

def Stats.toJson (s : Stats) : Json := .record (s.fields.map fun (k, n) => (k, .ofNat n))

def Hotspot.toJson (h : Hotspot) : Json :=
  .record [("context", .ofString h.context), ("depth", .ofNat h.depth), ("blocks", .ofNat h.blocks),
    ("executions", .ofNat h.executions), ("percentage", Report.amount h.percentage)]

namespace Summary

/-- The counts of a summary under their names. -/
def counts (s : Summary) : List (String × Nat) :=
  [("events", s.events), ("threads", s.threads), ("functions", s.functions),
   ("contexts", s.contexts), ("bbccs", s.anchors), ("call_arcs", s.arcs), ("calls", s.calls),
   ("function_entries", s.entries)]

def toJson (s : Summary) : Json :=
  .record (s.counts.map (fun (k, n) => (k, .ofNat n))
    ++ [("stats", s.stats.toJson), ("hotspots", .ofList Hotspot.toJson s.hotspots)])

/-- The document, indented and without a line end behind it. -/
def document (s : Summary) : String := s.toJson.renderPretty

end Summary
end CallGraph
