/-
  CallGraph.SortedMap — finite maps from numbers, listed in ascending order of the keys.

  The list of entries is strictly sorted by key, so a map has one representation and its order is
  the one that answers show.
-/

namespace CallGraph

structure SortedMap (α : Type) where
  entries : List (Nat × α) := []
  sorted : entries.Pairwise (fun p q => p.1 < q.1) := by exact List.Pairwise.nil

namespace SortedMap

variable {α : Type}

def empty : SortedMap α := {}

def size (m : SortedMap α) : Nat := m.entries.length

def keys (m : SortedMap α) : List Nat := m.entries.map (·.1)

def get? (m : SortedMap α) (k : Nat) : Option α := (m.entries.find? (·.1 = k)).map (·.2)

/-- The entry for `k` is put at its place, over the one that is there. -/
def insertEntry (k : Nat) (v : α) : List (Nat × α) → List (Nat × α)
  | [] => [(k, v)]
  | e :: es =>
    if k < e.1 then (k, v) :: e :: es
    else if k = e.1 then (k, v) :: es
    else e :: insertEntry k v es

theorem mem_insertEntry {k : Nat} {v : α} {es : List (Nat × α)} {p : Nat × α}
    (h : p ∈ insertEntry k v es) : p = (k, v) ∨ p ∈ es := by
  induction es with
  | nil => simpa [insertEntry] using h
  | cons e es ih =>
    unfold insertEntry at h
    split at h
    · simpa using h
    · split at h
      · simp only [List.mem_cons] at h ⊢
        rcases h with h | h
        · exact .inl h
        · exact .inr (.inr h)
      · simp only [List.mem_cons] at h ⊢
        rcases h with h | h
        · exact .inr (.inl h)
        · rcases ih h with h | h
          · exact .inl h
          · exact .inr (.inr h)

theorem sorted_insertEntry (k : Nat) (v : α) {es : List (Nat × α)}
    (h : es.Pairwise (fun p q => p.1 < q.1)) :
    (insertEntry k v es).Pairwise (fun p q => p.1 < q.1) := by
  induction es with
  | nil => exact List.pairwise_singleton _ _
  | cons e es ih =>
    obtain ⟨he, hes⟩ := List.pairwise_cons.mp h
    unfold insertEntry
    split
    · rename_i hlt
      refine List.pairwise_cons.mpr ⟨fun p hp => ?_, h⟩
      rcases List.mem_cons.mp hp with rfl | hp
      · exact hlt
      · exact Nat.lt_trans hlt (he p hp)
    · split
      · rename_i heq
        exact List.pairwise_cons.mpr ⟨fun p hp => heq ▸ he p hp, hes⟩
      · rename_i hlt hne
        refine List.pairwise_cons.mpr ⟨fun p hp => ?_, ih hes⟩
        rcases mem_insertEntry hp with rfl | hp
        · show e.1 < k
          omega
        · exact he p hp

def insert (m : SortedMap α) (k : Nat) (v : α) : SortedMap α :=
  ⟨insertEntry k v m.entries, sorted_insertEntry k v m.sorted⟩

def erase (m : SortedMap α) (k : Nat) : SortedMap α :=
  ⟨m.entries.filter (·.1 ≠ k), m.sorted.filter _⟩

/-- Changes every value; the keys stay. -/
def map {β : Type} (m : SortedMap α) (f : α → β) : SortedMap β :=
  ⟨m.entries.map fun p => (p.1, f p.2), m.sorted.map _ fun _ _ h => h⟩

end SortedMap
end CallGraph
