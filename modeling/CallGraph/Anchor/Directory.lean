/-
  CallGraph.Anchor.Directory — cost anchors by block, context and thread.

  There is at most one anchor for a block, a context and a thread. Anchors are found by their key in
  a hash table over block plus context, which grows when it is more than nine tenths full; removing
  an anchor frees its number for a later one. An anchor remembers which anchor followed it
  last time, as a hint.
-/

import CallGraph.Arena
import CallGraph.Fault

namespace CallGraph

/-- What an anchor is for. -/
structure AnchorKey where
  block : BlockId
  context : ContextId
  thread : ThreadId
deriving DecidableEq

structure Anchor where
  key : AnchorKey
  /-- The anchor that got the cost right after this one last time. -/
  next : Option AnchorId := none
deriving DecidableEq

structure Directory where
  arena : Arena Anchor := .empty
  buckets : Array (List AnchorId)
  /-- How often the hash table has grown. -/
  resizes : Nat := 0

namespace Directory

def ofBuckets (buckets : Nat) : Except Fault Directory :=
  if buckets = 0 then throw .noAnchorBuckets else pure { buckets := Array.replicate buckets [] }

/-- The number of live anchors. -/
def size (d : Directory) : Nat := d.arena.live

def get? (d : Directory) (id : AnchorId) : Option Anchor := d.arena.get? id.num

def get (d : Directory) (id : AnchorId) : Except Fault Anchor :=
  match d.get? id with
  | none => throw (.deadAnchor id)
  | some a => pure a

/-- Whether a number, that may be out of date, stands for the anchor of a key. -/
def holds (d : Directory) (id : AnchorId) (key : AnchorKey) : Bool :=
  match d.get? id with
  | none => false
  | some a => a.key = key

/-- The live anchors in the order of their numbers. -/
def toList (d : Directory) : List (AnchorId × Anchor) :=
  d.arena.toList.map fun (i, a) => (⟨i⟩, a)

def bucketOf (key : AnchorKey) (buckets : Nat) : Nat := (key.block.num + key.context.num) % buckets

def addToBucket (buckets : Array (List AnchorId)) (key : AnchorKey) (id : AnchorId) :
    Array (List AnchorId) :=
  buckets.modify (bucketOf key buckets.size) (id :: ·)

/-- Whether the slot of a number that was handed out has the anchor of a key. -/
def isFor (d : Directory) (key : AnchorKey) (id : AnchorId) : Except Fault Bool :=
  match d.arena.slots[id.num]? with
  | none => throw .outOfRange
  | some slot => pure (slot.any fun a => a.key = key)

/-- Searches the bucket of a key for its anchor. -/
def find (d : Directory) (key : AnchorKey) : Except Fault (Option AnchorId) :=
  match d.buckets[bucketOf key d.buckets.size]? with
  | none => throw .outOfRange
  | some ids => ids.findM? (d.isFor key)

/-- The anchor of a key, seen from outside: what the search comes to. It always comes to an answer
in a directory that was made here. -/
def lookup (d : Directory) (key : AnchorKey) : Option AnchorId := (d.find key).toOption.join

/-- Twice as many buckets and three more. -/
def grow (d : Directory) : Directory :=
  let buckets := Array.replicate (2 * d.buckets.size + 3) []
  { d with
    buckets := d.toList.foldl (fun bs (id, a) => addToBucket bs a.key id) buckets
    resizes := d.resizes + 1 }

/-- Makes the anchor of a key that has none yet. -/
def spawn (d : Directory) (key : AnchorKey) : Except Fault (AnchorId × Directory) := do
  match ← d.find key with
  | some _ => throw (.duplicateAnchor key.block key.context key.thread)
  | none =>
    match d with
    | ⟨arena, buckets, resizes⟩ =>
      let (i, arena) := arena.insert { key }
      let d : Directory := { arena, buckets := addToBucket buckets key ⟨i⟩, resizes }
      pure (⟨i⟩, if 100 * d.arena.live / d.buckets.size > 90 then d.grow else d)

/-- Removes a live anchor. -/
def remove? (d : Directory) (id : AnchorId) : Option (Anchor × Directory) :=
  (d.arena.remove? id.num).map fun (a, arena) =>
    (a, { d with
          arena
          buckets := d.buckets.modify (bucketOf a.key d.buckets.size) fun ids => ids.erase id })

/-- Notes which anchor followed a live one. -/
def setNext (d : Directory) (id next : AnchorId) : Except Fault Directory := do
  let _ ← d.get id
  pure { d with arena := d.arena.modify id.num fun a => { a with next := some next } }

/-- Clears the hints to evicted anchors. -/
def forgetHints (d : Directory) (evicted : AnchorId → Bool) : Directory :=
  { d with
    arena := d.arena.map fun a => { a with next := a.next.filter fun id => !evicted id } }

/-- How many hints `forgetHints` clears. -/
def countHints (d : Directory) (evicted : AnchorId → Bool) : Nat :=
  d.toList.countP fun (_, a) => a.next.any evicted

end Directory
end CallGraph
