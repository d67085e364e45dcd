/-
  CallGraph.Trace.Decode — reading traces.

  The fields that have defaults may be missing. An event is told by its tag, wherever in the
  object the tag stands, so an event is held whole before it is read: even in its unknown fields
  all strings have to be text and all numbers finite.
-/

import CallGraph.Json.Decode
import CallGraph.Json.Range
import CallGraph.Json.Reader
import CallGraph.Trace.Basic
import CallGraph.Trace.Format

namespace CallGraph

open Json

def Addr.ofJson? (j : Json) : Option Addr := j.uint64?.map Addr.mk

def Exit.ofJson? (j : Json) : Option Exit := do
  match ← record? Format.exitFields j with
  | [kind, offset, size] =>
    pure
      { kind := ← required (choice? ExitKind.names) kind
        offset := ← withDefault 0 uint32? offset
        size := ← withDefault 0 uint32? size }
  | _ => none

def Config.ofJson? (j : Json) : Option Config := do
  let d : Config := {}
  match ← record? Format.configFields j with
  | [depth, fnStack, callStack, contexts, anchors, tailCalls, skip] =>
    pure
      { contextDepth := ← withDefault d.contextDepth (nullable? uint64?) depth
        fnStackCapacity := ← withDefault d.fnStackCapacity uint64? fnStack
        callStackCapacity := ← withDefault d.callStackCapacity uint64? callStack
        contextBuckets := ← withDefault d.contextBuckets uint64? contexts
        anchorBuckets := ← withDefault d.anchorBuckets uint64? anchors
        tailCalls := ← withDefault d.tailCalls (choice? TailCallRule.names) tailCalls
        skip := ← withDefault d.skip (list? text?) skip }
  | _ => none

def FunctionDecl.ofJson? (j : Json) : Option FunctionDecl := do
  match ← record? Format.functionFields j with
  | [name, object, skip] =>
    pure
      { name := ← required text? name
        object := ← required uint32? object
        skip := ← withDefault false bool? skip }
  | _ => none

def BlockDecl.ofJson? (j : Json) : Option BlockDecl := do
  match ← record? Format.blockFields j with
  | [addr, function, object, inSection, isEntry, exits] =>
    pure
      { addr := ← required Addr.ofJson? addr
        function := ← required uint32? function
        object := ← withDefault none (nullable? uint32?) object
        inSection := ← withDefault .unknown (choice? SectionKind.names) inSection
        isEntry := ← withDefault false bool? isEntry
        exits := ← required (list? Exit.ofJson?) exits }
  | _ => none

namespace Event

/-- An event by its tag, from the values of the fields that `fields?` finds under given names. -/
def ofFields? (tag : String) (fields? : List String → Option (List (Option Json))) :
    Option Event :=
  match tag with
  | "block" => do
    match ← fields? Format.blockEventFields with
    | [tid, sp, index, exit] =>
      pure (.block (← required uint32? tid) (← required Addr.ofJson? sp)
        (← required uint32? index) (← withDefault none (nullable? uint64?) exit))
    | _ => none
  | "signal" => do
    match ← fields? Format.signalEventFields with
    | [tid, sig] => pure (.signal (← required uint32? tid) (← required int32? sig))
    | _ => none
  | "signal_return" => do
    match ← fields? Format.signalEventFields with
    | [tid, sig] =>
      pure (.signalReturn (← required uint32? tid) (← required int32? sig))
    | _ => none
  | "discard" => do
    match ← fields? Format.discardEventFields with
    | [index] => pure (.discard (← required uint32? index))
    | _ => none
  | _ => none

def ofJson? : Json → Option Event
  | .object fields => do
    let tag ← (← field? fields Format.eventTag).bind text?
    let others := fields.filter fun f => f.1 ≠ some Format.eventTag
    if canHoldFields Format.eventLevels others then
      ofFields? tag fun names => fieldsOf? names others
    else none
  | .array (.string (some tag) :: items) =>
    if canHoldItems Format.eventLevels items then
      ofFields? tag fun names => fieldsInOrder? names items
    else none
  | _ => none

end Event

namespace Trace

def ofJson? (j : Json) : Option Trace := do
  match ← record? Format.traceFields j with
  | [config, objects, functions, blocks, events] =>
    pure
      { config := ← withDefault {} Config.ofJson? config
        objects := (← withDefault [] (list? text?) objects).toArray
        functions := (← withDefault [] (list? FunctionDecl.ofJson?) functions).toArray
        blocks := (← withDefault [] (list? BlockDecl.ofJson?) blocks).toArray
        events := ← withDefault [] (list? Event.ofJson?) events }
  | _ => none

/-- The trace in a text, if the text is one. -/
def parse? (text : String) : Option Trace := (Json.parse? text).bind ofJson?

end Trace
end CallGraph
