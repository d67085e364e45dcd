/-
  CallGraph.Id — the numbers by which the parts of a run are known, and addresses.

  Each kind of number is a type of its own, so that a block is never taken for a cost anchor.
  Numbers are handed out from zero upwards by the table that owns the part; thread and object
  numbers come from outside. The printed forms (`fn#3`, `TID:1`) appear in fault messages.

  Addresses of the guest program, code addresses and stack pointers, are 64-bit words: an offset
  past the last one wraps around to zero. They are ordered as unsigned numbers and printed in
  lower-case hexadecimal.
-/

namespace CallGraph

/-- A function, by its place in the function table. -/
structure FnId where
  num : Nat
deriving DecidableEq

/-- A code object: the executable or a shared library. -/
structure ObjId where
  num : Nat
deriving DecidableEq

/-- A basic block, by its slot in the block table; slots are used again after a discard. -/
structure BlockId where
  num : Nat
deriving DecidableEq

/-- An interned call chain. -/
structure ContextId where
  num : Nat
deriving DecidableEq

/-- A cost anchor: what the cost of one block in one context on one thread is billed to. -/
structure AnchorId where
  num : Nat
deriving DecidableEq

/-- The cost centre of one call arc. -/
structure ArcId where
  num : Nat
deriving DecidableEq

/-- A logical thread of the program. -/
structure ThreadId where
  num : Nat
deriving DecidableEq

/-- The thread assumed before any other is seen. -/
def ThreadId.initial : ThreadId := ⟨1⟩

instance : ToString FnId := ⟨fun f => s!"fn#{f.num}"⟩
instance : ToString ObjId := ⟨fun o => s!"obj#{o.num}"⟩
instance : ToString BlockId := ⟨fun b => s!"bb#{b.num}"⟩
instance : ToString ContextId := ⟨fun c => s!"cxt#{c.num}"⟩
instance : ToString AnchorId := ⟨fun a => s!"bbcc#{a.num}"⟩
instance : ToString ThreadId := ⟨fun t => s!"TID:{t.num}"⟩

/-- A code address or the value of a stack pointer. -/
structure Addr where
  val : UInt64
deriving DecidableEq

namespace Addr

/-- Stands for a return address that is not known. -/
def unknown : Addr := ⟨0⟩

instance : LT Addr := ⟨fun a b => a.val < b.val⟩
instance (a b : Addr) : Decidable (a < b) := inferInstanceAs (Decidable (a.val < b.val))

theorem lt_iff (a b : Addr) : a < b ↔ a.val.toNat < b.val.toNat := Iff.rfl

/-- The address `d` bytes further on, modulo 2^64. -/
def offset (a : Addr) (d : UInt64) : Addr := ⟨a.val + d⟩

instance : ToString Addr := ⟨fun a => "0x" ++ String.ofList (Nat.toDigits 16 a.val.toNat)⟩

end Addr

end CallGraph
