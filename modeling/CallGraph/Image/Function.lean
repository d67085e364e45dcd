/-
  CallGraph.Image.Function — the functions of the program.

  Functions are registered once and never removed. Beside its name and its object a function has
  the number of its activations that are open now (a direct call to itself opens none) and, as a
  hint for the context table, the context interned last with this function on top.
-/

import CallGraph.Fault

namespace CallGraph

structure Function where
  name : String
  object : ObjId
  /-- Calls into the function are rolled up into the caller's context. -/
  skip : Bool
  /-- The context interned last with this function innermost. -/
  hint : Option ContextId := none
  /-- How many activations are open. -/
  active : Nat := 0

structure FunctionTable where
  nodes : Array Function := #[]

namespace FunctionTable

def empty : FunctionTable := {}

def size (t : FunctionTable) : Nat := t.nodes.size

def register (t : FunctionTable) (name : String) (object : ObjId) (skip : Bool) :
    FnId × FunctionTable :=
  (⟨t.nodes.size⟩, ⟨t.nodes.push { name, object, skip }⟩)

def get (t : FunctionTable) (fn : FnId) : Except Fault Function :=
  match t.nodes[fn.num]? with
  | none => throw .outOfRange
  | some f => pure f

/-- The function registered first under a name. -/
def find? (t : FunctionTable) (name : String) : Option FnId :=
  (t.nodes.findIdx? (·.name = name)).map FnId.mk

def modify (t : FunctionTable) (fn : FnId) (f : Function → Function) : FunctionTable :=
  ⟨t.nodes.modify fn.num f⟩

def setSkip (t : FunctionTable) (fn : FnId) (skip : Bool) : Except Fault FunctionTable := do
  let _ ← t.get fn
  pure (t.modify fn fun f => { f with skip })

def setHint (t : FunctionTable) (fn : FnId) (context : ContextId) : FunctionTable :=
  t.modify fn fun f => { f with hint := some context }

/-- Opens an activation; true if it is the only one. -/
def enter (t : FunctionTable) (fn : FnId) : Except Fault (Bool × FunctionTable) := do
  let f ← t.get fn
  pure (f.active = 0, t.modify fn fun f => { f with active := f.active + 1 })

/-- Closes an activation; true if none is left. Closing one that is not open is a fault. -/
def leave (t : FunctionTable) (fn : FnId) : Except Fault (Bool × FunctionTable) := do
  let f ← t.get fn
  if f.active = 0 then throw (.inactiveFunction f.name fn)
  else pure (f.active = 1, t.modify fn fun f => { f with active := f.active - 1 })

end FunctionTable
end CallGraph
