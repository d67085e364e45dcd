/-
  CallGraph.Trace.Encode — writing traces.

  Every field is written under its name, those that have defaults too, and an absent value as
  `null`.
-/

import CallGraph.Json.Writer
import CallGraph.Trace.Basic
import CallGraph.Trace.Format

namespace CallGraph

open Json

def Addr.toJson (a : Addr) : Json := .ofNat a.val.toNat

def Exit.toJson (e : Exit) : Json :=
  .record [("kind", .ofString e.kind.name), ("offset", .ofNat e.offset.toNat),
    ("size", .ofNat e.size.toNat)]

def Config.toJson (c : Config) : Json :=
  .record [("context_depth", .ofOption (fun n => .ofNat n.toNat) c.contextDepth),
    ("fn_stack_capacity", .ofNat c.fnStackCapacity.toNat),
    ("call_stack_capacity", .ofNat c.callStackCapacity.toNat),
    ("context_buckets", .ofNat c.contextBuckets.toNat),
    ("bbcc_buckets", .ofNat c.anchorBuckets.toNat),
    ("tail_call_heuristic", .ofString c.tailCalls.name),
    ("skip", .ofList .ofString c.skip)]

def FunctionDecl.toJson (f : FunctionDecl) : Json :=
  .record [("name", .ofString f.name), ("object", .ofNat f.object.toNat), ("skip", .bool f.skip)]

def BlockDecl.toJson (b : BlockDecl) : Json :=
  .record [("addr", b.addr.toJson), ("function", .ofNat b.function.toNat),
    ("object", .ofOption (fun o => .ofNat o.toNat) b.object),
    ("section", .ofString b.inSection.name), ("entry", .bool b.isEntry),
    ("exits", .ofList Exit.toJson b.exits)]

def Event.toJson : Event → Json
  | .block tid sp index exit =>
    .record [("type", .ofString "block"), ("tid", .ofNat tid.toNat), ("sp", sp.toJson),
      ("block", .ofNat index.toNat), ("exit", .ofOption (fun n => .ofNat n.toNat) exit)]
  | .signal tid sig =>
    .record [("type", .ofString "signal"), ("tid", .ofNat tid.toNat), ("sig", .ofInt sig.toInt)]
  | .signalReturn tid sig =>
    .record [("type", .ofString "signal_return"), ("tid", .ofNat tid.toNat),
      ("sig", .ofInt sig.toInt)]
  | .discard index => .record [("type", .ofString "discard"), ("block", .ofNat index.toNat)]

namespace Trace

def toJson (t : Trace) : Json :=
  .record [("config", t.config.toJson), ("objects", .ofList .ofString t.objects.toList),
    ("functions", .ofList FunctionDecl.toJson t.functions.toList),
    ("blocks", .ofList BlockDecl.toJson t.blocks.toList),
    ("events", .ofList Event.toJson t.events)]

/-- The text of a trace. -/
def render (t : Trace) : String := t.toJson.render

end Trace
end CallGraph
