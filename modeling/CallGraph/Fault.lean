/-
  CallGraph.Fault — the ways in which an operation can be asked for something senseless.

  A fault is no answer about the program under study: it means that a caller broke a rule of the
  interface (an unknown block, a signal that is not being handled) or that the bookkeeping has
  gone wrong. Every operation names the fault it stops with; `Fault.message` is the only place
  where faults are put into words.
-/

import CallGraph.Id

namespace CallGraph

inductive Fault where
  /-- An id that no table handed out, or an exit that the block does not have. -/
  | outOfRange
  /-- More room is asked for than there are addresses. -/
  | capacityOverflow
  | noContextBuckets
  | noContextDepth
  | noAnchorBuckets
  /-- A block without its final exit. -/
  | blockWithoutExit (addr : Addr)
  | blockWithoutFunction (addr : Addr) (fn : FnId)
  | deadBlock (block : BlockId)
  | deadAnchor (anchor : AnchorId)
  | duplicateAnchor (block : BlockId) (context : ContextId) (thread : ThreadId)
  /-- A function is left more often than it was entered. -/
  | inactiveFunction (name : String) (fn : FnId)
  | cutAboveTop (depth top : Nat)
  | stagedTwice
  | popOfEmptyStack
  | popWhileStaged
  | noActiveContext (block : BlockId)
  | callNotFromCosted (anchor : AnchorId)
  | callNotStaged
  | frameWithoutContext (depth : Nat)
  | signalNotPositive (signal : Int)
  | signalNotHandled (signal : Int) (thread : ThreadId) (handled : Int)
  | noHandler (thread : ThreadId)
deriving DecidableEq

/-- The text of a fault. An index out of range and too much room have none of their own. -/
def Fault.message : Fault → Option String
  | .outOfRange | .capacityOverflow => none
  | .noContextBuckets => some "context table needs at least one bucket"
  | .noContextDepth => some "context depth must be at least one function"
  | .noAnchorBuckets => some "BBCC directory needs at least one bucket"
  | .blockWithoutExit addr => some s!"block at {addr} has no final exit"
  | .blockWithoutFunction addr fn => some s!"block at {addr} belongs to unregistered {fn}"
  | .deadBlock block => some s!"{block} is not a live block"
  | .deadAnchor anchor => some s!"{anchor} is not a live BBCC"
  | .duplicateAnchor block context thread =>
    some s!"duplicate BBCC for {block} in {context} on {thread}"
  | .inactiveFunction name fn => some s!"active count of {name} ({fn}) would go negative"
  | .cutAboveTop depth top => some s!"function stack restore to {depth} above current top {top}"
  | .stagedTwice => some "reserved slot above shadow stack top already holds a context"
  | .popOfEmptyStack => some "pop from empty shadow call stack"
  | .popWhileStaged => some "shadow stack popped while a context was staged"
  | .noActiveContext block => some s!"no active context after entering {block}"
  | .callNotFromCosted anchor => some s!"call out of skipped code must come from {anchor}"
  | .callNotStaged => some "caller context must be staged before a costed call is pushed"
  | .frameWithoutContext depth => some s!"costed frame {depth} has no caller context"
  | .signalNotPositive signal => some s!"signal number {signal} must be positive"
  | .signalNotHandled signal thread handled =>
    some s!"signal {signal} returned on {thread} while {handled} is handled"
  | .noHandler thread => some s!"no signal handler active on {thread}"

end CallGraph
