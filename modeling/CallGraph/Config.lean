/-
  CallGraph.Config — the settings of a tracker.

  Every setting has a default. `Config.check` refuses settings that no tracker can be built with
  and names the first of them, in the order depth, context buckets, anchor buckets. Tables and stacks
  for which more room is asked than can be named pass the check (`Config.fits`). Memory is taken to
  suffice for everything else.
-/

namespace CallGraph

/-- When a plain jump onto the first block of a function counts as a call. -/
inductive TailCallRule where
  /-- Always: compilers turn calls in tail position into jumps. -/
  | anyEntry
  /-- Only when the function is another one than the jump comes from. -/
  | otherFunctionEntry
deriving DecidableEq

structure Config where
  /-- How many functions of a call chain tell contexts apart; all of them if absent. -/
  contextDepth : Option UInt64 := none
  /-- How many slots and frames the stacks of a thread have room for from the start. -/
  fnStackCapacity : UInt64 := 500
  callStackCapacity : UInt64 := 500
  contextBuckets : UInt64 := 2537
  anchorBuckets : UInt64 := 10437
  tailCalls : TailCallRule := .anyEntry
  /-- Names of functions whose cost is rolled up into their callers. -/
  skip : List String := []
deriving DecidableEq

/-- Why no tracker can be built with some settings. -/
inductive ConfigFlaw where
  | zeroDepth
  | noContextBuckets
  | noAnchorBuckets
deriving DecidableEq

def ConfigFlaw.message : ConfigFlaw → String
  | .zeroDepth => "context_depth must be at least 1"
  | .noContextBuckets => "context_buckets must be at least 1"
  | .noAnchorBuckets => "bbcc_buckets must be at least 1"

namespace Config

/-- Whether calls into functions of this name are rolled up into their callers. -/
def isSkipped (c : Config) (name : String) : Bool := c.skip.contains name

def check (c : Config) : Except ConfigFlaw Unit :=
  if c.contextDepth = some 0 then throw .zeroDepth
  else if c.contextBuckets = 0 then throw .noContextBuckets
  else if c.anchorBuckets = 0 then throw .noAnchorBuckets
  else pure ()

/-- The most bytes that a table or a stack may have room for. -/
def maxRoom : Nat := 0x7fffffffffffffff

def bucketBytes : Nat := 24

def frameBytes : Nat := 64

/-- The bytes that a slot of the function stack takes. -/
def slotBytes : Nat := 8

/-- Whether there is room for a number of things of this size. -/
def hasRoom (bytes : Nat) (count : UInt64) : Bool := bytes * count.toNat ≤ maxRoom

/-- Whether the tables and the stacks of a thread can be made. `check` does not ask for this. -/
def fits (c : Config) : Bool :=
  hasRoom bucketBytes c.contextBuckets && hasRoom bucketBytes c.anchorBuckets
    && hasRoom frameBytes c.callStackCapacity && hasRoom slotBytes c.fnStackCapacity

end Config
end CallGraph
