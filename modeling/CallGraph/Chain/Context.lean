/-
  CallGraph.Chain.Context — call chains by number.

  A context is a call chain, cut to a bounded number of functions where a bound is set. The table
  gives equal chains the same number, however often they come up. A chain is looked for first under
  the hint of its innermost function and then in a hash table; the hash table grows when it is
  more than eight tenths full.
-/

import CallGraph.Image.Function

namespace CallGraph

/-- An interned chain. -/
structure Context where
  /-- The innermost function. -/
  top : FnId
  /-- Its callers, innermost first. -/
  callers : List FnId
  hash : UInt64

def Context.chain (c : Context) : List FnId := c.top :: c.callers

/-- The rolling hash of a chain: seven bits up, the bits above the 25th folded back, plus the
number. -/
def chainHash (chain : List FnId) : UInt64 :=
  chain.foldl (fun h f => (h <<< 7) + (h >>> 25) + f.num.toUInt64) 0

structure ContextTable where
  contexts : Array Context := #[]
  buckets : Array (List ContextId)
  /-- How many functions of a chain count. -/
  depthLimit : Option Nat
  /-- How often the hash table has grown. -/
  resizes : Nat := 0

namespace ContextTable

/-- The empty table. It needs a bucket, and a bound on chains must let one function through. -/
def ofBuckets (buckets : Nat) (depthLimit : Option Nat) : Except Fault ContextTable :=
  if buckets = 0 then throw .noContextBuckets
  else if depthLimit = some 0 then throw .noContextDepth
  else pure { buckets := Array.replicate buckets [], depthLimit }

def size (t : ContextTable) : Nat := t.contexts.size

def get? (t : ContextTable) (id : ContextId) : Option Context := t.contexts[id.num]?

def get (t : ContextTable) (id : ContextId) : Except Fault Context :=
  match t.get? id with
  | none => throw .outOfRange
  | some c => pure c

/-- The part of a chain that counts. -/
def cut (t : ContextTable) (chain : List FnId) : List FnId :=
  match t.depthLimit with
  | none => chain
  | some n => chain.take n

/-- Whether a number that was handed out stands for a chain with this hash. -/
def holds (t : ContextTable) (hash : UInt64) (chain : List FnId) (id : ContextId) :
    Except Fault Bool := do
  let c ← t.get id
  pure (c.hash = hash && c.chain = chain)

def bucketOf (hash : UInt64) (buckets : Nat) : Nat := hash.toNat % buckets

def addToBucket (buckets : Array (List ContextId)) (hash : UInt64) (id : ContextId) :
    Array (List ContextId) :=
  buckets.modify (bucketOf hash buckets.size) (id :: ·)

/-- Searches the bucket of a hash for the number of a chain. -/
def lookup (t : ContextTable) (hash : UInt64) (chain : List FnId) :
    Except Fault (Option ContextId) :=
  match t.buckets[bucketOf hash t.buckets.size]? with
  | none => throw .outOfRange
  | some ids => ids.findM? (t.holds hash chain)

/-- Twice as many buckets and three more. Hashes are kept, so no chain is looked at again. -/
def grow (t : ContextTable) : ContextTable :=
  let buckets := Array.replicate (2 * t.buckets.size + 3) []
  { t with
    buckets := t.contexts.toList.zipIdx.foldl (fun bs (c, i) => addToBucket bs c.hash ⟨i⟩) buckets
    resizes := t.resizes + 1 }

/-- Gives a new chain the next number. -/
def insert (t : ContextTable) (top : FnId) (callers : List FnId) (hash : UInt64) :
    ContextId × ContextTable :=
  let id : ContextId := ⟨t.contexts.size⟩
  let t :=
    match t with
    | ⟨contexts, buckets, depthLimit, resizes⟩ =>
      { contexts := contexts.push { top, callers, hash }
        buckets := addToBucket buckets hash id
        depthLimit, resizes : ContextTable }
  (id, if 10 * t.contexts.size / t.buckets.size > 8 then t.grow else t)

/-- The number of a chain, innermost function first. The empty chain has none. -/
def intern (t : ContextTable) (functions : FunctionTable) (chain : List FnId) :
    Except Fault (Option ContextId × ContextTable × FunctionTable) :=
  match t.cut chain with
  | [] => pure (none, t, functions)
  | top :: callers => do
    let hash := chainHash (top :: callers)
    let f ← functions.get top
    match ← f.hint.filterM (t.holds hash (top :: callers)) with
    | some id => pure (some id, t, functions)
    | none =>
      match ← t.lookup hash (top :: callers) with
      | some id => pure (some id, t, functions.setHint top id)
      | none =>
        let (id, t) := t.insert top callers hash
        pure (some id, t, functions.setHint top id)

end ContextTable
end CallGraph
