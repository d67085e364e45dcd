/-
  CallGraph.Tracker.Transfer — what a transfer of control from one block to the next really is.

  The kind of the exit taken is only a first guess:
  - a return that matches no frame is a jump (a long jump, or a return address pushed by hand);
  - a jump onto the first block of a function, into another kind of section or into another object
    is a call (a call in tail position, a stub of the linkage table), and so is every return that
    was taken for a jump;
  - a return where the thread, or the handler it is in, has no frame is a call into the function
    returned to;
  - any other transfer that leaves frames behind on the real stack is a return.

  `classify` decides from the two blocks, the stack pointer and the frames alone.
-/

import CallGraph.Config
import CallGraph.Image.Block
import CallGraph.Shadow.Unwinding

namespace CallGraph

/-- Where control comes from: the block that ran last, and the exit it was left through. -/
structure Departure where
  anchor : AnchorId
  block : Block
  exit : Nat
  kind : ExitKind

/-- What a transfer does to the shadow stack. -/
structure Transfer where
  /-- How many frames it leaves behind. -/
  pops : Nat
  /-- Whether it enters a function with a frame of its own. -/
  enters : Bool
  /-- The stack pointer for that frame. -/
  sp : Addr
  promoted : Bool := false
  returnAsJump : Bool := false
  emulated : Bool := false
deriving DecidableEq

/-- Whether a jump counts as a call for where it lands. -/
def TailCallRule.promotes (rule : TailCallRule) (source target : Block) : Bool :=
  (match rule with
    | .anyEntry => target.isEntry
    | .otherFunctionEntry => target.isEntry && source.fn ≠ target.fn)
  || source.inSection ≠ target.inSection || source.object ≠ target.object

namespace Transfer

/-- A return that leaves at least `n` frames, where frames above `bottom` belong to the innermost
handler. -/
def ofReturn (sp : Addr) (frames : List Frame) (bottom n : Nat) : Transfer :=
  if frames.length ≤ bottom then { pops := 0, enters := true, sp, emulated := true }
  else { pops := leftBehind sp n frames, enters := false, sp }

/-- A call, a jump that is `promoted` to one, or another transfer. Such a transfer enters a function
only if it leaves no frame behind; a promoted one does so at the level of the top frame. -/
def ofJump (sp : Addr) (frames : List Frame) (calls promoted returnAsJump : Bool) : Transfer :=
  let pops := leftBehind sp 0 frames
  let enters := (calls || promoted) && pops = 0
  let level := if promoted then (frames.head?.map (·.sp)).getD sp else sp
  { pops, enters, sp := if enters then level else sp, promoted, returnAsJump }

/-- How many frames a return has to leave, or nothing if it is none. Without any frame there is
nothing to match. -/
def minPops (frames : List Frame) (sp target : Addr) : Option Nat :=
  if frames.isEmpty then some 1 else returnDepth frames sp target

def classify (rule : TailCallRule) (source : Option Departure) (target : Block) (sp : Addr)
    (frames : List Frame) (bottom : Nat) : Transfer :=
  match source with
  | none => ofJump sp frames false false false
  | some d =>
    match d.kind with
    | .call => ofJump sp frames true false false
    | .ret =>
      match minPops frames sp target.addr with
      | some n => ofReturn sp frames bottom n
      | none => ofJump sp frames false true true
    | _ => ofJump sp frames false (rule.promotes d.block target) false

end Transfer
end CallGraph
