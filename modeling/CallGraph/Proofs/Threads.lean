/-
  CallGraph.Proofs.Threads — the registry as a map from threads to states.

  A switch moves the state that ran to the parked ones and takes another out of them. Seen through
  `get?` it changes nothing but that an unseen thread gets the fresh state (`Registry.get?_switchTo`),
  and no slot of a function stack is lost or doubled by it (`Registry.slotsOf_switchTo`). Both need
  that the running thread is not parked as well (`Registry.Apart`), which every switch keeps.
-/

import CallGraph.Tracker.Op

namespace CallGraph

/-! ## Sorted maps -/

namespace SortedMap

variable {α : Type}

theorem find?_insertEntry (k : Nat) (v : α) (es : List (Nat × α)) (j : Nat) :
    ((insertEntry k v es).find? (·.1 = j)).map (·.2) =
      if j = k then some v else (es.find? (·.1 = j)).map (·.2) := by
  induction es with
  | nil =>
    by_cases e : j = k
    · simp [insertEntry, e]
    · simp [insertEntry, e, Ne.symm e]
  | cons p es ih =>
    unfold insertEntry
    split
    · by_cases e : j = k
      · simp [e]
      · simp [e, Ne.symm e]
    · split
      · rename_i hk
        by_cases e : j = k
        · simp [e]
        · have hp : p.1 ≠ j := fun hp => e (hp.symm.trans hk.symm)
          simp [e, Ne.symm e, hp]
      · rename_i hk
        by_cases hp : p.1 = j
        · have e : j ≠ k := fun e => hk (e.symm.trans hp.symm)
          simp [hp, e]
        · simpa [hp] using ih

theorem get?_insert (m : SortedMap α) (k : Nat) (v : α) (j : Nat) :
    (m.insert k v).get? j = if j = k then some v else m.get? j :=
  find?_insertEntry k v m.entries j

theorem get?_erase (m : SortedMap α) (k j : Nat) :
    (m.erase k).get? j = if j = k then none else m.get? j := by
  simp only [erase, get?, List.find?_filter]
  by_cases e : j = k
  · subst e
    simp
  · have h : (fun p : Nat × α => decide (decide (p.1 ≠ k) = true ∧ decide (p.1 = j) = true)) =
        fun p => decide (p.1 = j) := by
      funext p
      by_cases hp : p.1 = j
      · simp [hp, e]
      · simp [hp]
    simp only [h, if_neg e]

theorem get?_map {β : Type} (m : SortedMap α) (f : α → β) (k : Nat) :
    (m.map f).get? k = (m.get? k).map f := by
  simp only [map, get?, List.find?_map, Option.map_map]
  rfl

theorem get?_of_mem {m : SortedMap α} {p : Nat × α} (h : p ∈ m.entries) : m.get? p.1 = some p.2 := by
  obtain ⟨es, hs⟩ := m
  unfold get?
  induction es with
  | nil => cases h
  | cons q es ih =>
    obtain ⟨hq, hs⟩ := List.pairwise_cons.mp hs
    obtain rfl | h := List.mem_cons.mp h
    · simp
    · have hne : q.1 ≠ p.1 := Nat.ne_of_lt (hq p h)
      rw [List.find?_cons_of_neg (by simpa using hne)]
      exact ih hs h

theorem mem_of_get? {m : SortedMap α} {k : Nat} {v : α} (h : m.get? k = some v) : (k, v) ∈ m.entries := by
  obtain ⟨p, hp, rfl⟩ := Option.map_eq_some_iff.mp h
  obtain rfl : p.1 = k := of_decide_eq_true (List.find?_some hp :)
  exact List.mem_of_find?_eq_some hp

/-- A map has one representation. -/
theorem ext_get? {m m' : SortedMap α} (h : ∀ k, m.get? k = m'.get? k) : m = m' := by
  have hmem : ∀ p, p ∈ m.entries ↔ p ∈ m'.entries := by
    intro p
    constructor <;> intro hp
    · exact mem_of_get? ((h p.1).symm.trans (get?_of_mem hp))
    · exact mem_of_get? ((h p.1).trans (get?_of_mem hp))
  have hnodup : ∀ m : SortedMap α, m.entries.Nodup :=
    fun m => m.sorted.imp fun hlt e => Nat.ne_of_lt hlt (congrArg Prod.fst e)
  have hperm := (List.perm_ext_iff_of_nodup (hnodup m) (hnodup m')).mpr hmem
  have hentries : m.entries = m'.entries := by
    refine hperm.eq_of_pairwise (fun p q _ _ hpq hqp => ?_) m.sorted m'.sorted
    exact absurd (Nat.lt_trans hpq hqp) (Nat.lt_irrefl _)
  cases m
  cases m'
  cases hentries
  rfl

theorem ne_of_get?_eq_none {m : SortedMap α} {k : Nat} (h : m.get? k = none) :
    ∀ p ∈ m.entries, p.1 ≠ k := by
  simpa [get?, List.find?_eq_none] using h

/-- A weight, summed over all values. -/
def weigh (m : SortedMap α) (w : α → Nat) : Nat := m.entries.foldr (fun p n => w p.2 + n) 0

theorem weigh_eq_zero {m : SortedMap α} {w : α → Nat} (h : ∀ p ∈ m.entries, w p.2 = 0) : m.weigh w = 0 := by
  unfold weigh
  generalize m.entries = es at h
  induction es with
  | nil => rfl
  | cons p es ih =>
    simp only [List.foldr_cons, ih fun q hq => h q (List.mem_cons_of_mem p hq), h p (List.mem_cons_self ..)]

theorem weigh_insertEntry (w : α → Nat) (k : Nat) (v : α) (es : List (Nat × α)) (h : ∀ p ∈ es, p.1 ≠ k) :
    (insertEntry k v es).foldr (fun p n => w p.2 + n) 0 = w v + es.foldr (fun p n => w p.2 + n) 0 := by
  induction es with
  | nil => rfl
  | cons p es ih =>
    have ih := ih fun q hq => h q (List.mem_cons_of_mem _ hq)
    unfold insertEntry
    split
    · rfl
    · rw [if_neg fun e => h p (List.mem_cons_self ..) e.symm]
      simp only [List.foldr_cons, ih]
      omega

theorem weigh_insert {m : SortedMap α} {k : Nat} (h : m.get? k = none) (w : α → Nat) (v : α) :
    (m.insert k v).weigh w = w v + m.weigh w :=
  weigh_insertEntry w k v m.entries (ne_of_get?_eq_none h)

theorem weigh_erase (m : SortedMap α) (w : α → Nat) (k : Nat) :
    (m.erase k).weigh w + (((m.get? k).map w).getD 0) = m.weigh w := by
  obtain ⟨es, hs⟩ := m
  simp only [weigh, erase, get?]
  induction es with
  | nil => rfl
  | cons p es ih =>
    obtain ⟨hp, hs⟩ := List.pairwise_cons.mp hs
    by_cases e : p.1 = k
    · have hes : es.filter (fun q => q.1 ≠ k) = es :=
        List.filter_eq_self.mpr fun q hq => by
          have := hp q hq
          simp only [ne_eq, decide_eq_true_eq]
          omega
      rw [List.filter_cons_of_neg (by simp [e]), hes, List.find?_cons_of_pos (by simp [e])]
      simp [Nat.add_comm]
    · have := ih hs
      simp only [List.filter_cons, List.find?_cons, e, decide_false, decide_true, ne_eq, not_false_eq_true,
        if_true, List.foldr_cons] at this ⊢
      omega

theorem weigh_map {β : Type} (m : SortedMap α) (f : α → β) (w : α → Nat) (w' : β → Nat)
    (h : ∀ x, w' (f x) = w x) : (m.map f).weigh w' = m.weigh w := by
  simp only [weigh, map, List.foldr_map, h]

/-- Weights agree if they do so key by key, where a key that is missing weighs nothing. -/
theorem weigh_congr {m m' : SortedMap α} {w : α → Nat}
    (h : ∀ k, ((m'.get? k).map w).getD 0 = ((m.get? k).map w).getD 0) : m'.weigh w = m.weigh w := by
  -- Induction on the number of keys of `m`, each of which is erased in both maps.
  generalize hn : m.entries.length = n
  induction n using Nat.strongRecOn generalizing m m' with
  | _ n ih =>
    cases he : m.entries with
    | nil =>
      have hm : m.weigh w = 0 := weigh_eq_zero fun p hp => by rw [he] at hp; cases hp
      have hm' : m'.weigh w = 0 := by
        refine weigh_eq_zero fun p hp => ?_
        have hk := h p.1
        rw [get?_of_mem hp, get?, he] at hk
        exact hk
      rw [hm, hm']
    | cons p es =>
      have hlt : (m.erase p.1).entries.length < n := by
        rw [← hn, erase]
        refine List.length_filter_lt_length_iff_exists.mpr ⟨p, by rw [he]; exact List.mem_cons_self .., ?_⟩
        simp
      have herased : (m'.erase p.1).weigh w = (m.erase p.1).weigh w := by
        refine ih _ hlt (fun k => ?_) rfl
        rw [get?_erase, get?_erase]
        split
        · rfl
        · exact h k
      rw [← weigh_erase m' w p.1, ← weigh_erase m w p.1, herased, h p.1]

/-- What is put in counts, and what it is put over does not any more. -/
theorem weigh_insert_add (m : SortedMap α) (w : α → Nat) (k : Nat) (v : α) :
    (m.insert k v).weigh w + ((m.get? k).map w).getD 0 = m.weigh w + w v := by
  have hnone : (m.erase k).get? k = none := by rw [get?_erase, if_pos rfl]
  have hsame : (m.insert k v).weigh w = ((m.erase k).insert k v).weigh w := by
    refine weigh_congr fun j => ?_
    rw [get?_insert, get?_insert, get?_erase]
    split <;> rfl
  have herase := weigh_erase m w k
  rw [hsame, weigh_insert hnone]
  omega

end SortedMap

/-! ## The registry -/

namespace Registry

theorem num_ne {t u : ThreadId} (h : t ≠ u) : t.num ≠ u.num := by
  intro e
  cases t; cases u
  exact h (congrArg ThreadId.mk e)

/-- The running thread is not parked as well. -/
def Apart (r : Registry) : Prop := r.parked.get? r.current.num = none

theorem initial_apart : initial.Apart := rfl

theorem get?_current (r : Registry) : r.get? r.current = some r.active := by simp [get?]

theorem get?_of_ne {r : Registry} {t : ThreadId} (h : t ≠ r.current) : r.get? t = r.parked.get? t.num := by
  simp [get?, h]

theorem get?_all (r : Registry) (t : ThreadId) : r.all.get? t.num = r.get? t := by
  rw [all, SortedMap.get?_insert]
  by_cases e : t = r.current
  · rw [if_pos (congrArg ThreadId.num e), e, get?_current]
  · rw [if_neg (num_ne e), get?_of_ne e]

theorem switchTo_current (r : Registry) : r.switchTo r.current = r := by simp [switchTo]

theorem current_switchTo (r : Registry) (t : ThreadId) : (r.switchTo t).current = t := by
  unfold switchTo
  split
  · rename_i h; exact h.symm
  · rfl

theorem switchTo_apart {r : Registry} (h : r.Apart) (t : ThreadId) : (r.switchTo t).Apart := by
  unfold switchTo
  split
  · exact h
  · rename_i ht
    simp [Apart, SortedMap.get?_insert, SortedMap.get?_erase, num_ne ht]

theorem active_switchTo (r : Registry) (t : ThreadId) :
    (r.switchTo t).active = (r.get? t).getD .fresh := by
  unfold switchTo
  split
  · rename_i h; subst h; simp [get?]
  · rename_i h; simp [get?, h]

theorem get?_switchTo (r : Registry) (t u : ThreadId) :
    (r.switchTo t).get? u = if u = t then some ((r.get? t).getD .fresh) else r.get? u := by
  by_cases e : u = t
  · have hc := get?_current (r.switchTo t)
    rw [current_switchTo, active_switchTo] at hc
    rw [e, hc, if_pos rfl]
  · rw [if_neg e]
    unfold switchTo
    split
    · rfl
    · by_cases hu : u = r.current
      · subst hu
        simp [get?, e, SortedMap.get?_insert]
      · simp [get?, e, hu, SortedMap.get?_insert, SortedMap.get?_erase, num_ne hu, num_ne e]

/-! ### Threads seen -/

theorem mem_ids {r : Registry} {u : ThreadId} : u ∈ r.ids ↔ ∃ s, r.get? u = some s := by
  rw [ids, List.mem_map, ← get?_all]
  constructor
  · rintro ⟨k, hk, rfl⟩
    obtain ⟨p, hp, rfl⟩ := List.mem_map.mp hk
    exact ⟨p.2, SortedMap.get?_of_mem hp⟩
  · rintro ⟨s, hs⟩
    exact ⟨u.num, List.mem_map.mpr ⟨_, SortedMap.mem_of_get? hs, rfl⟩, rfl⟩

/-- A thread is listed once. -/
theorem ids_nodup (r : Registry) : r.ids.Nodup := by
  rw [ids, SortedMap.keys, List.map_map, List.Nodup, List.pairwise_map]
  exact r.all.sorted.imp fun hlt e => Nat.ne_of_lt hlt (congrArg ThreadId.num e)

theorem length_ids {r : Registry} (h : r.Apart) : r.ids.length = r.size := by
  have hsize : ∀ m : SortedMap ThreadState, m.entries.length = m.weigh fun _ => 1 := by
    intro m
    unfold SortedMap.weigh
    induction m.entries with
    | nil => rfl
    | cons p es ih => rw [List.length_cons, ih, List.foldr_cons, Nat.add_comm]
  rw [ids, SortedMap.keys, List.length_map, List.length_map, hsize, all, SortedMap.weigh_insert h, ← hsize, Nat.add_comm]
  rfl

theorem mem_ids_switchTo {r : Registry} {t u : ThreadId} : u ∈ (r.switchTo t).ids ↔ u = t ∨ u ∈ r.ids := by
  rw [mem_ids, mem_ids, get?_switchTo]
  split
  · rename_i e
    exact iff_of_true ⟨_, rfl⟩ (.inl e)
  · rename_i e
    exact (or_iff_right e).symm

/-- What the running thread does brings no other thread. -/
theorem mem_ids_of_parked {r r' : Registry} (hc : r'.current = r.current) (hp : r'.parked = r.parked) {u : ThreadId} :
    u ∈ r'.ids ↔ u ∈ r.ids := by
  rw [mem_ids, mem_ids]
  by_cases e : u = r.current
  · rw [e]
    exact iff_of_true ⟨_, hc ▸ get?_current r'⟩ ⟨_, get?_current r⟩
  · rw [get?_of_ne e, get?_of_ne (hc ▸ e), hp]

/-- A weight, summed over all threads, running and parked. -/
def weigh (r : Registry) (w : ThreadState → Nat) : Nat := w r.active + r.parked.weigh w

theorem weigh_all {r : Registry} (h : r.Apart) (w : ThreadState → Nat) : r.all.weigh w = r.weigh w :=
  SortedMap.weigh_insert h w r.active

theorem get?_of_mem_all {r : Registry} {p : Nat × ThreadState} (hp : p ∈ r.all.entries) : r.get? ⟨p.1⟩ = some p.2 :=
  (get?_all r ⟨p.1⟩).symm.trans (SortedMap.get?_of_mem hp)

/-- A weight that no thread has is none in all. -/
theorem weigh_eq_zero {r : Registry} (h : r.Apart) {w : ThreadState → Nat} (hw : ∀ u s, r.get? u = some s → w s = 0) :
    r.weigh w = 0 := by
  rw [← weigh_all h]
  exact SortedMap.weigh_eq_zero fun p hp => hw ⟨p.1⟩ p.2 (get?_of_mem_all hp)

/-- A weight is summed over the threads seen. -/
theorem weigh_eq_foldr {r : Registry} (h : r.Apart) (w : ThreadState → Nat) :
    r.weigh w = (r.ids.map fun u => w ((r.get? u).getD .fresh)).foldr (· + ·) 0 := by
  have hentries : (r.ids.map fun u => w ((r.get? u).getD .fresh)) = r.all.entries.map fun p => w p.2 := by
    rw [ids, SortedMap.keys, List.map_map, List.map_map]
    refine List.map_congr_left fun p hp => ?_
    simp only [Function.comp_apply, get?_of_mem_all hp, Option.getD_some]
  rw [← weigh_all h, SortedMap.weigh, hentries, List.foldr_map]

theorem weigh_switchTo {r : Registry} (h : r.Apart) {w : ThreadState → Nat} (hfresh : w .fresh = 0) (t : ThreadId) :
    (r.switchTo t).weigh w = r.weigh w := by
  by_cases e : t = r.current
  · rw [e, switchTo_current]
  · have hnone : (r.parked.erase t.num).get? r.current.num = none := by
      rw [SortedMap.get?_erase, h]; simp
    have herase := SortedMap.weigh_erase r.parked w t.num
    simp only [switchTo, if_neg e, weigh, SortedMap.weigh_insert hnone]
    rcases hp : r.parked.get? t.num with _ | s
    · simp only [hp, Option.map_none, Option.getD_none, hfresh] at herase ⊢
      omega
    · simp only [hp, Option.map_some, Option.getD_some] at herase ⊢
      omega

/-- How many slots of all function stacks, running and parked, hold a function. -/
def slotsOf (r : Registry) (fn : FnId) : Nat :=
  r.active.fns.slots.count (some fn) + r.parked.weigh fun s => s.fns.slots.count (some fn)

theorem slotsOf_switchTo {r : Registry} (h : r.Apart) (t : ThreadId) (fn : FnId) :
    (r.switchTo t).slotsOf fn = r.slotsOf fn :=
  weigh_switchTo h (w := fun s => s.fns.slots.count (some fn)) rfl t

theorem get?_forget (r : Registry) (evicted : AnchorId → Bool) (t : ThreadId) :
    (r.forget evicted).get? t = (r.get? t).map (·.forget evicted) := by
  unfold get?
  split <;> simp_all [forget, SortedMap.get?_map]

theorem mem_ids_forget {r : Registry} {evicted : AnchorId → Bool} {u : ThreadId} :
    u ∈ (r.forget evicted).ids ↔ u ∈ r.ids := by
  rw [mem_ids, mem_ids, get?_forget]
  cases r.get? u <;> simp

theorem slotsOf_forget (r : Registry) (evicted : AnchorId → Bool) (fn : FnId) :
    (r.forget evicted).slotsOf fn = r.slotsOf fn := by
  have hp : (r.parked.map (·.forget evicted)).weigh (fun s => s.fns.slots.count (some fn)) =
      r.parked.weigh fun s => s.fns.slots.count (some fn) := SortedMap.weigh_map _ _ _ _ fun _ => rfl
  simp only [slotsOf, forget, hp]
  rfl

theorem forget_apart {r : Registry} (h : r.Apart) (evicted : AnchorId → Bool) : (r.forget evicted).Apart := by
  have h' : r.parked.get? r.current.num = none := h
  simp [Apart, forget, SortedMap.get?_map, h']

end Registry
end CallGraph
