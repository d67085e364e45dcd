/-
  CallGraph.Arena — numbered slots that are used again.

  `insert` takes the slot that was freed last and only then a new one, so the numbers of live
  items stay small. `get?` is the view: what is live under a number. Slots are never given up, so
  that a number that was handed out is one of a slot for good.
-/

namespace CallGraph

@[ext]
structure Arena (α : Type) where
  slots : Array (Option α) := #[]
  /-- The dead slots, the one freed last in front. -/
  free : List Nat := []
  live : Nat := 0
  free_lt : ∀ i ∈ free, i < slots.size := by simp

namespace Arena

variable {α : Type}

def empty : Arena α := {}

/-- The item under a number, if it is live. -/
def get? (a : Arena α) (i : Nat) : Option α := a.slots[i]?.join

def contains (a : Arena α) (i : Nat) : Bool := (a.get? i).isSome

/-- Puts an item into a free slot and returns the slot's number. -/
def insert (a : Arena α) (x : α) : Nat × Arena α :=
  match a with
  | ⟨slots, [], live, _⟩ => (slots.size, { slots := slots.push (some x), live := live + 1 })
  | ⟨slots, i :: free, live, hfree⟩ =>
    (i, { slots := slots.set i (some x) (hfree i List.mem_cons_self)
          free
          live := live + 1
          free_lt := fun j hj => by simpa using hfree j (List.mem_cons_of_mem i hj) })

/-- Takes a live item out; nothing if there is none under this number. -/
def remove? (a : Arena α) (i : Nat) : Option (α × Arena α) :=
  if hi : i < a.slots.size then
    match a.slots[i] with
    | none => none
    | some x =>
      some (x, { slots := a.slots.set i none
                 free := i :: a.free
                 live := a.live - 1
                 free_lt := by simpa [hi] using a.free_lt })
  else none

/-- Changes the item under a number, if it is live. -/
def modify (a : Arena α) (i : Nat) (f : α → α) : Arena α :=
  { a with slots := a.slots.modify i (Option.map f), free_lt := by simpa using a.free_lt }

/-- Changes all live items. -/
def map (a : Arena α) (f : α → α) : Arena α :=
  { a with slots := a.slots.map (Option.map f), free_lt := by simpa using a.free_lt }

/-- The live items with their numbers, in ascending order of the numbers. -/
def toList (a : Arena α) : List (Nat × α) :=
  a.slots.toList.zipIdx.filterMap fun (x, i) => x.map (i, ·)

end Arena
end CallGraph
