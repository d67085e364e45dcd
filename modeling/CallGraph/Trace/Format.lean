/-
  CallGraph.Trace.Format — the names of the trace format.

  A trace is written as JSON. Here are the names of its records' fields, in the order in which a
  record may list them without names, and the names of the kinds of exits, sections and rules.
-/

import CallGraph.Config
import CallGraph.Image.Exit

namespace CallGraph

def ExitKind.name : ExitKind → String
  | .fallThrough => "fall_through"
  | .jump => "jump"
  | .call => "call"
  | .ret => "return"

def ExitKind.names : List (String × ExitKind) :=
  [.fallThrough, .jump, .call, .ret].map fun k => (k.name, k)

def SectionKind.name : SectionKind → String
  | .unknown => "unknown"
  | .text => "text"
  | .data => "data"
  | .bss => "bss"
  | .got => "got"
  | .plt => "plt"
  | .opd => "opd"
  | .gotPlt => "got_plt"

def SectionKind.names : List (String × SectionKind) :=
  [.unknown, .text, .data, .bss, .got, .plt, .opd, .gotPlt].map fun k => (k.name, k)

def TailCallRule.name : TailCallRule → String
  | .anyEntry => "any_entry"
  | .otherFunctionEntry => "other_function_entry"

def TailCallRule.names : List (String × TailCallRule) :=
  [.anyEntry, .otherFunctionEntry].map fun r => (r.name, r)

namespace Format

def exitFields : List String := ["kind", "offset", "size"]

def configFields : List String :=
  ["context_depth", "fn_stack_capacity", "call_stack_capacity", "context_buckets", "bbcc_buckets",
   "tail_call_heuristic", "skip"]

def functionFields : List String := ["name", "object", "skip"]

def blockFields : List String := ["addr", "function", "object", "section", "entry", "exits"]

def traceFields : List String := ["config", "objects", "functions", "blocks", "events"]

/-- The field that tells what kind of event an object is. -/
def eventTag : String := "type"

def blockEventFields : List String := ["tid", "sp", "block", "exit"]

def signalEventFields : List String := ["tid", "sig"]

def discardEventFields : List String := ["block"]

/-- How deep values may be nested inside an event, which stands three levels deep itself. -/
def eventLevels : Nat := 124

end Format
end CallGraph
