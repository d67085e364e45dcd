/-
  CallGraph.Trace.Flaw — what is wrong with a trace.

  `Trace.check` accepts the traces whose settings are usable and in which everything referred to is
  declared, and otherwise names the first flaw: settings, functions, blocks, events, each list in
  its order.
-/

import CallGraph.Trace.Basic

namespace CallGraph

inductive Flaw where
  | config (flaw : ConfigFlaw)
  | unknownObject (function object : Nat)
  | unknownFunction (block function : Nat)
  | unknownBlockObject (block object : Nat)
  | noExits (block : Nat)
  | unknownBlock (event block : Nat)
  | exitOutOfRange (event block exit : Nat)
  | signalNotPositive (event : Nat) (signal : Int)
deriving DecidableEq

def Flaw.message : Flaw → String
  | .config flaw => s!"Invalid engine config: {flaw.message}"
  | .unknownObject function object => s!"Function {function} refers to unknown object {object}"
  | .unknownFunction block function => s!"Block {block} refers to unknown function {function}"
  | .unknownBlockObject block object => s!"Block {block} refers to unknown object {object}"
  | .noExits block => s!"Block {block} has no exits"
  | .unknownBlock event block => s!"Event {event} refers to unknown block {block}"
  | .exitOutOfRange event block exit =>
    s!"Event {event}: exit {exit} out of range for block {block}"
  | .signalNotPositive event signal => s!"Event {event}: invalid signal number {signal}"

/-- The flaw of settings as a flaw of what they come with. -/
def Config.checkFlaw (c : Config) : Except Flaw Unit :=
  match c.check with
  | .ok () => pure ()
  | .error flaw => throw (.config flaw)

namespace Trace

def checkFunction (t : Trace) (i : Nat) (f : FunctionDecl) : Except Flaw Unit :=
  if t.objects.size ≤ f.object.toNat then throw (.unknownObject i f.object.toNat) else pure ()

def checkBlock (t : Trace) (i : Nat) (b : BlockDecl) : Except Flaw Unit :=
  if t.functions.size ≤ b.function.toNat then throw (.unknownFunction i b.function.toNat)
  else
    match b.object.filter fun o => t.objects.size ≤ o.toNat with
    | some o => throw (.unknownBlockObject i o.toNat)
    | none => if b.exits.isEmpty then throw (.noExits i) else pure ()

def checkSignal (i : Nat) (signal : Int32) : Except Flaw Unit :=
  if signal.toInt ≤ 0 then throw (.signalNotPositive i signal.toInt) else pure ()

def checkEvent (t : Trace) (i : Nat) (e : Event) : Except Flaw Unit :=
  match e with
  | .block _ _ block exit =>
    match t.blocks[block.toNat]? with
    | none => throw (.unknownBlock i block.toNat)
    | some b =>
      match exit.filter fun e => b.finalIndex < e.toNat with
      | some e => throw (.exitOutOfRange i block.toNat e.toNat)
      | none => pure ()
  | .discard block =>
    match t.blocks[block.toNat]? with
    | none => throw (.unknownBlock i block.toNat)
    | some _ => pure ()
  | .signal _ signal => checkSignal i signal
  | .signalReturn _ signal => checkSignal i signal

/-- Whether a trace can be replayed, or its first flaw. -/
def check (t : Trace) : Except Flaw Unit := do
  t.config.checkFlaw
  t.functions.toList.zipIdx.forM fun (f, i) => t.checkFunction i f
  t.blocks.toList.zipIdx.forM fun (b, i) => t.checkBlock i b
  t.events.zipIdx.forM fun (e, i) => t.checkEvent i e

end Trace
end CallGraph
