/-
  CallGraph.Proofs.Storage — slots, blocks and anchors through `get?`.

  An arena is sound while its free list names the dead slots, each once. What every operation does
  to a sound arena is said by one equation on `get?`, and the block table and the anchor
  directory inherit these equations; the buckets of the directory never matter here, for a look-up
  is only believed after the anchor itself was compared.
  - `Arena.get?_insert` / `Arena.get?_insert_new`: an insertion lands in a dead slot.
  - `Directory.spawn_ok`: an anchor is made for every key that a look-up does not find.
-/

import CallGraph.Tracker.Op

namespace CallGraph

/-! ## Outcomes -/

@[simp] theorem ok_bind {ε α β : Type} (a : α) (f : α → Except ε β) : (Except.ok a >>= f) = f a := rfl

@[simp] theorem pure_eq_ok {ε α : Type} (a : α) : (pure a : Except ε α) = .ok a := rfl

@[simp] theorem throw_eq_error {ε α : Type} (e : ε) : (throw e : Except ε α) = .error e := rfl

@[simp] theorem error_bind {ε α β : Type} (e : ε) (f : α → Except ε β) :
    ((Except.error e : Except ε α) >>= f) = .error e := rfl

theorem bind_eq_ok {ε α β : Type} {x : Except ε α} {f : α → Except ε β} {b : β} :
    (x >>= f) = .ok b ↔ ∃ a, x = .ok a ∧ f a = .ok b := by
  cases x <;> simp

theorem map_eq_ok {ε α β : Type} {x : Except ε α} {f : α → β} {b : β} :
    x.map f = .ok b ↔ ∃ a, x = .ok a ∧ f a = b := by
  cases x <;> simp [Except.map]

theorem toOption_eq_some {ε α : Type} {x : Except ε α} {a : α} : x.toOption = some a ↔ x = .ok a := by
  cases x <;> simp [Except.toOption]

theorem forM_eq_ok {ε α : Type} {l : List α} {f : α → Except ε Unit} :
    l.forM f = .ok () ↔ ∀ x ∈ l, f x = .ok () := by
  induction l with
  | nil => exact iff_of_true rfl nofun
  | cons x l ih =>
    have hcons : (x :: l).forM f = (f x >>= fun _ => l.forM f) := rfl
    rw [hcons, bind_eq_ok, List.forall_mem_cons, ← ih]
    constructor
    · rintro ⟨⟨⟩, hx, hl⟩
      exact ⟨hx, hl⟩
    · rintro ⟨hx, hl⟩
      exact ⟨_, hx, hl⟩

theorem mapM_eq_ok {ε α β : Type} {l : List α} {f : α → Except ε β} {g : α → β} (h : ∀ a ∈ l, f a = .ok (g a)) :
    l.mapM f = .ok (l.map g) := by
  induction l with
  | nil => rfl
  | cons a l ih =>
    obtain ⟨ha, hl⟩ := List.forall_mem_cons.mp h
    rw [List.mapM_cons, ha, ih hl]
    rfl

/-! ## Searching with faults -/

section Search

variable {ε α : Type} {p : α → Except ε Bool} {l : List α} {a : α}

theorem findM?_cons (p : α → Except ε Bool) (a : α) (l : List α) :
    (a :: l).findM? p = (p a >>= fun found => if found then .ok (some a) else l.findM? p) := by
  rw [List.findM?]
  refine bind_congr fun found => ?_
  cases found <;> rfl

theorem findM?_eq_some (h : l.findM? p = .ok (some a)) : a ∈ l ∧ p a = .ok true := by
  induction l with
  | nil => cases h
  | cons b l ih =>
    rw [findM?_cons] at h
    obtain ⟨found, hfound, h⟩ := bind_eq_ok.mp h
    cases found with
    | true =>
      cases h
      exact ⟨List.mem_cons_self, hfound⟩
    | false => exact ⟨List.mem_cons_of_mem b (ih h).1, (ih h).2⟩

theorem findM?_eq_none (h : l.findM? p = .ok none) : ∀ a ∈ l, p a = .ok false := by
  induction l with
  | nil => exact nofun
  | cons b l ih =>
    rw [findM?_cons] at h
    obtain ⟨found, hfound, h⟩ := bind_eq_ok.mp h
    cases found with
    | true => cases h
    | false => exact List.forall_mem_cons.mpr ⟨hfound, ih h⟩

/-- A search comes to an end if every question does. -/
theorem findM?_ok (h : ∀ a ∈ l, ∃ found, p a = .ok found) : ∃ o, l.findM? p = .ok o := by
  induction l with
  | nil => exact ⟨none, rfl⟩
  | cons b l ih =>
    obtain ⟨⟨found, hfound⟩, hl⟩ := List.forall_mem_cons.mp h
    rw [findM?_cons, hfound, ok_bind]
    cases found with
    | true => exact ⟨some b, rfl⟩
    | false => exact ih hl

theorem filterM_eq_some {o : Option α} (h : o.filterM p = .ok (some a)) : o = some a ∧ p a = .ok true := by
  cases o with
  | none => cases h
  | some b =>
    obtain ⟨found, hfound, h⟩ := map_eq_ok.mp h
    cases found with
    | true =>
      cases h
      exact ⟨rfl, hfound⟩
    | false => cases h

theorem filterM_ok {o : Option α} (h : ∀ a, o = some a → ∃ found, p a = .ok found) : ∃ o', o.filterM p = .ok o' := by
  cases o with
  | none => exact ⟨none, rfl⟩
  | some b =>
    obtain ⟨found, hfound⟩ := h b rfl
    exact ⟨_, map_eq_ok.mpr ⟨found, hfound, rfl⟩⟩

end Search

/-! ## One entry written

Whatever a table holds, it is read through a function from ids; these lemmas say what a write under one
id does to it. -/

section Write

variable {ι α : Type} [DecidableEq ι] {get get' : ι → Option α} {i j : ι} {v x : α}

theorem write_cases (hget : ∀ j, get' j = if j = i then some v else get j) (hj : get' j = some x) :
    (j = i ∧ x = v) ∨ (j ≠ i ∧ get j = some x) := by
  rw [hget] at hj
  split at hj
  · rename_i e
    exact .inl ⟨e, (Option.some.inj hj).symm⟩
  · rename_i hne
    exact .inr ⟨hne, hj⟩

/-- What is written under a free id replaces nothing. -/
theorem write_keeps (hget : ∀ j, get' j = if j = i then some v else get j) (hfree : get i = none)
    (hj : get j = some x) : j ≠ i ∧ get' j = some x := by
  have hne : j ≠ i := by
    intro e
    rw [e, hfree] at hj
    cases hj
  exact ⟨hne, by rw [hget, if_neg hne, hj]⟩

theorem exists_write_iff (hget : ∀ j, get' j = if j = i then some v else get j) (hfree : get i = none)
    {P : α → Prop} : (∃ x, get' j = some x ∧ P x) ↔ (j = i ∧ P v) ∨ ∃ x, get j = some x ∧ P x := by
  constructor
  · intro h
    obtain ⟨x, hx, hp⟩ := h
    rcases write_cases hget hx with ⟨e, rfl⟩ | ⟨-, hx⟩
    · exact .inl ⟨e, hp⟩
    · exact .inr ⟨x, hx, hp⟩
  · intro h
    rcases h with ⟨e, hp⟩ | ⟨x, hx, hp⟩
    · exact ⟨v, by rw [hget, if_pos e], hp⟩
    · exact ⟨x, (write_keeps hget hfree hx).2, hp⟩

/-- Entries that are told apart by a feature still are once one with a new feature is written. -/
theorem write_distinct {φ : Type} {feature : α → φ} (hget : ∀ j, get' j = if j = i then some v else get j)
    (hnew : ∀ j x, get j = some x → feature x ≠ feature v)
    (hold : ∀ j k x y, get j = some x → get k = some y → feature x = feature y → j = k) (j k : ι) (x y : α)
    (hx : get' j = some x) (hy : get' k = some y) (hxy : feature x = feature y) : j = k := by
  obtain ⟨rfl, rfl⟩ | ⟨-, hx⟩ := write_cases hget hx
  · obtain ⟨rfl, -⟩ | ⟨-, hy⟩ := write_cases hget hy
    · rfl
    · exact absurd hxy.symm (hnew k y hy)
  · obtain ⟨-, rfl⟩ | ⟨-, hy⟩ := write_cases hget hy
    · exact absurd hxy (hnew j x hx)
    · exact hold j k x y hx hy hxy

end Write

/-! ## Arenas -/

namespace Arena

variable {α : Type}

/-- The free list names every dead slot once. -/
structure Sound (a : Arena α) : Prop where
  nodup : a.free.Nodup
  memFree : ∀ i, i ∈ a.free ↔ a.slots[i]? = some none

theorem get?_eq_some {a : Arena α} {i : Nat} {x : α} : a.get? i = some x ↔ a.slots[i]? = some (some x) :=
  Option.join_eq_some_iff

theorem empty_sound : (empty : Arena α).Sound :=
  ⟨List.nodup_nil, fun i => by simp [empty]⟩

theorem get?_empty (i : Nat) : (empty : Arena α).get? i = none := by simp [get?, empty]

theorem Sound.mem_free_iff {a : Arena α} (h : a.Sound) {i : Nat} : i ∈ a.free ↔ i < a.slots.size ∧ a.get? i = none := by
  rw [h.memFree, Array.getElem?_eq_some_iff, get?]
  constructor
  · rintro ⟨hi, hdead⟩
    rw [Array.getElem?_eq_getElem hi, hdead]
    exact ⟨hi, rfl⟩
  · rintro ⟨hi, hdead⟩
    rw [Array.getElem?_eq_getElem hi] at hdead
    exact ⟨hi, hdead⟩

theorem get?_insert {a : Arena α} (h : a.Sound) (x : α) (j : Nat) :
    (a.insert x).2.get? j = if j = (a.insert x).1 then some x else a.get? j := by
  obtain ⟨slots, free, live, hfree⟩ := a
  cases free with
  | nil =>
    simp only [insert, get?, Array.getElem?_push]
    by_cases e : j = slots.size <;> simp [e]
  | cons i free =>
    simp only [insert, get?, Array.getElem?_set]
    by_cases e : j = i
    · subst e; simp
    · simp [e, Ne.symm e]

theorem get?_insert_new {a : Arena α} (h : a.Sound) (x : α) : a.get? (a.insert x).1 = none := by
  obtain ⟨slots, free, live, hfree⟩ := a
  cases free with
  | nil => simp [insert, get?]
  | cons i free =>
    have hi : slots[i]? = some none := (h.memFree i).mp (List.mem_cons_self ..)
    simp [insert, get?, hi]

theorem live_insert (a : Arena α) (x : α) : (a.insert x).2.live = a.live + 1 := by
  obtain ⟨slots, free, live, hfree⟩ := a
  cases free <;> rfl

/-- Slots are not given up, and the number of a new item is that of a slot. -/
theorem size_insert (a : Arena α) (x : α) :
    a.slots.size ≤ (a.insert x).2.slots.size ∧ (a.insert x).1 < (a.insert x).2.slots.size := by
  obtain ⟨slots, free, live, hfree⟩ := a
  cases free with
  | nil => simp [insert]
  | cons i free => simpa [insert] using hfree i List.mem_cons_self

theorem insert_sound {a : Arena α} (h : a.Sound) (x : α) : (a.insert x).2.Sound := by
  obtain ⟨slots, free, live, hfree⟩ := a
  obtain ⟨hn, hm⟩ := h
  cases free with
  | nil =>
    refine ⟨hn, fun i => ?_⟩
    have := hm i
    simp only [insert, Array.getElem?_push]
    by_cases e : i = slots.size
    · subst e; simp
    · simpa [e] using this
  | cons k free =>
    obtain ⟨hk, hn⟩ := List.nodup_cons.mp hn
    refine ⟨hn, fun i => ?_⟩
    have hi := hm i
    simp only [insert, Array.getElem?_set]
    by_cases e : k = i
    · subst e; simp [hk]
    · simpa [e, Ne.symm e] using hi

theorem remove?_eq_none {a : Arena α} {i : Nat} : a.remove? i = none ↔ a.get? i = none := by
  unfold remove? get?
  split
  · rename_i hi
    rw [Array.getElem?_eq_getElem hi]
    split <;> simp_all
  · rename_i hi
    simp [Array.getElem?_eq_none (Nat.le_of_not_lt hi)]

/-- What a removal leaves, part by part. -/
theorem remove?_parts {a a' : Arena α} {i : Nat} {x : α} (h : a.remove? i = some (x, a')) :
    a.slots[i]? = some (some x) ∧ a'.slots = a.slots.setIfInBounds i none ∧ a'.free = i :: a.free ∧
      a'.live = a.live - 1 := by
  unfold remove? at h
  split at h
  · rename_i hi
    split at h
    · cases h
    · rename_i y hy
      cases h
      refine ⟨?_, ?_, rfl, rfl⟩
      · rw [Array.getElem?_eq_getElem hi, hy]
      · rw [Array.setIfInBounds, dif_pos hi]
  · cases h

theorem size_remove? {a a' : Arena α} {i : Nat} {x : α} (h : a.remove? i = some (x, a')) :
    a'.slots.size = a.slots.size := by
  obtain ⟨-, hslots, -⟩ := remove?_parts h
  rw [hslots, Array.size_setIfInBounds]

theorem get?_of_remove? {a a' : Arena α} {i : Nat} {x : α} (h : a.remove? i = some (x, a')) :
    a.get? i = some x ∧ ∀ j, a'.get? j = if j = i then none else a.get? j := by
  obtain ⟨hx, hslots, -⟩ := remove?_parts h
  have hi : i < a.slots.size := (Array.getElem?_eq_some_iff.mp hx).1
  refine ⟨get?_eq_some.mpr hx, fun j => ?_⟩
  simp only [get?, hslots, Array.getElem?_setIfInBounds]
  by_cases e : j = i
  · subst e; simp [hi]
  · simp [e, Ne.symm e]

theorem remove?_sound {a a' : Arena α} {i : Nat} {x : α} (ha : a.Sound) (h : a.remove? i = some (x, a')) :
    a'.Sound := by
  obtain ⟨hs, hslots, hfree, -⟩ := remove?_parts h
  have hi : i < a.slots.size := (Array.getElem?_eq_some_iff.mp hs).1
  refine ⟨?_, fun j => ?_⟩
  · rw [hfree]
    refine List.nodup_cons.mpr ⟨fun hf => ?_, ha.nodup⟩
    rw [(ha.memFree i).mp hf] at hs
    cases hs
  · simp only [hfree, hslots, List.mem_cons, Array.getElem?_setIfInBounds]
    by_cases e : i = j
    · subst e; simp [hi]
    · simpa [e, Ne.symm e] using ha.memFree j

theorem get?_modify (a : Arena α) (i : Nat) (f : α → α) (j : Nat) :
    (a.modify i f).get? j = if j = i then (a.get? i).map f else a.get? j := by
  simp only [modify, get?, Array.getElem?_modify]
  by_cases e : i = j
  · subst e
    simp only [if_true]
    rcases a.slots[i]? with _ | _ | x <;> rfl
  · simp [e, Ne.symm e]

theorem modify_sound {a : Arena α} (h : a.Sound) (i : Nat) (f : α → α) : (a.modify i f).Sound := by
  refine ⟨h.nodup, fun j => ?_⟩
  have hj := h.memFree j
  simp only [modify, Array.getElem?_modify]
  split
  · rw [hj]
    rcases a.slots[j]? with _ | _ | x <;> simp
  · exact hj

theorem get?_map (a : Arena α) (f : α → α) (j : Nat) : (a.map f).get? j = (a.get? j).map f := by
  simp only [map, get?, Array.getElem?_map]
  rcases a.slots[j]? with _ | _ | x <;> rfl

theorem map_sound {a : Arena α} (h : a.Sound) (f : α → α) : (a.map f).Sound := by
  refine ⟨h.nodup, fun j => ?_⟩
  have hj := h.memFree j
  simp only [map, Array.getElem?_map]
  rw [hj]
  rcases a.slots[j]? with _ | _ | x <;> simp

end Arena

/-! ## Blocks -/

namespace BlockTable

theorem num_ne {i j : BlockId} (h : i ≠ j) : i.num ≠ j.num := by
  intro e
  cases i; cases j
  exact h (congrArg BlockId.mk e)

theorem get?_insert {t : BlockTable} (h : t.arena.Sound) (b : Block) (j : BlockId) :
    (t.insert b).2.get? j = if j = (t.insert b).1 then some { block := b } else t.get? j := by
  simp only [insert, get?, Arena.get?_insert h]
  by_cases e : j = ⟨(t.arena.insert { block := b }).1⟩
  · subst e; simp
  · simp [e, num_ne e]

theorem get?_insert_new {t : BlockTable} (h : t.arena.Sound) (b : Block) : t.get? (t.insert b).1 = none :=
  Arena.get?_insert_new h _

theorem arena_remove? {t t' : BlockTable} {i : BlockId} {r : Resident} (h : t.remove? i = some (r, t')) :
    t.arena.remove? i.num = some (r, t'.arena) := by
  simp only [remove?, Option.map_eq_some_iff, Prod.mk.injEq, Prod.exists] at h
  obtain ⟨_, a, ha, rfl, rfl⟩ := h
  exact ha

theorem get?_of_remove? {t t' : BlockTable} {i : BlockId} {r : Resident} (h : t.remove? i = some (r, t')) :
    t.get? i = some r ∧ ∀ j, t'.get? j = if j = i then none else t.get? j := by
  obtain ⟨hi, hj⟩ := Arena.get?_of_remove? (arena_remove? h)
  refine ⟨hi, fun j => ?_⟩
  simp only [get?, hj]
  by_cases e : j = i
  · subst e; simp
  · simp [e, num_ne e]

theorem remove?_sound {t t' : BlockTable} {i : BlockId} {r : Resident} (ht : t.arena.Sound)
    (h : t.remove? i = some (r, t')) : t'.arena.Sound :=
  Arena.remove?_sound ht (arena_remove? h)

theorem remove?_eq_none {t : BlockTable} {i : BlockId} : t.remove? i = none ↔ t.get? i = none := by
  simp [remove?, get?, Arena.remove?_eq_none]

theorem get?_modify (t : BlockTable) (i : BlockId) (f : Resident → Resident) (j : BlockId) :
    get? ⟨t.arena.modify i.num f⟩ j = if j = i then (t.get? i).map f else t.get? j := by
  simp only [get?, Arena.get?_modify]
  by_cases e : j = i
  · subst e; simp
  · simp [e, num_ne e]

theorem get?_addAnchor (t : BlockTable) (i : BlockId) (a : AnchorId) (j : BlockId) :
    (t.addAnchor i a).get? j =
      if j = i then (t.get? i).map fun r => { r with anchors := r.anchors ++ [a], recent := some a }
      else t.get? j :=
  get?_modify ..

theorem get?_setRecent (t : BlockTable) (i : BlockId) (a : AnchorId) (j : BlockId) :
    (t.setRecent i a).get? j =
      if j = i then (t.get? i).map fun r => { r with recent := some a } else t.get? j :=
  get?_modify ..

theorem get_eq_ok_iff {t : BlockTable} {i : BlockId} {r : Resident} : t.get i = .ok r ↔ t.get? i = some r := by
  unfold get
  split <;> simp_all

theorem get_eq_ok {t : BlockTable} {i : BlockId} {r : Resident} (h : t.get? i = some r) : t.get i = .ok r :=
  get_eq_ok_iff.mpr h

end BlockTable

/-! ## Anchors -/

namespace Directory

theorem num_ne {i j : AnchorId} (h : i ≠ j) : i.num ≠ j.num := by
  intro e
  cases i; cases j
  exact h (congrArg AnchorId.mk e)

theorem holds_iff {d : Directory} {id : AnchorId} {key : AnchorKey} :
    d.holds id key = true ↔ ∃ a, d.get? id = some a ∧ a.key = key := by
  unfold holds
  split <;> simp_all

theorem get_eq_ok_iff {d : Directory} {a : AnchorId} {y : Anchor} : d.get a = .ok y ↔ d.get? a = some y := by
  unfold get
  split <;> simp_all

theorem get_eq_ok {d : Directory} {id : AnchorId} {a : Anchor} (h : d.get? id = some a) :
    d.get id = .ok a :=
  get_eq_ok_iff.mpr h

theorem isFor_eq_ok {d : Directory} {id : AnchorId} {key : AnchorKey} {found : Bool} (h : d.isFor key id = .ok found) :
    found = d.holds id key := by
  unfold isFor at h
  unfold holds get? Arena.get?
  split at h
  · cases h
  · rename_i slot hslot
    cases h
    rw [hslot]
    cases slot <;> rfl

/-- A slot is asked about without a fault if there is one. -/
theorem isFor_ok {d : Directory} {id : AnchorId} (h : id.num < d.arena.slots.size) (key : AnchorKey) :
    ∃ found, d.isFor key id = .ok found := by
  unfold isFor
  rw [Array.getElem?_eq_getElem h]
  exact ⟨_, rfl⟩

theorem bucket_of_find {d : Directory} {key : AnchorKey} {o : Option AnchorId} (h : d.find key = .ok o) :
    (d.buckets.getD (bucketOf key d.buckets.size) []).findM? (d.isFor key) = .ok o := by
  unfold find at h
  rw [Array.getD_eq_getD_getElem?]
  split at h
  · cases h
  · rename_i ids hids
    rw [hids]
    exact h

/-- From outside the search is seen as what it comes to. -/
theorem lookup_of_find {d : Directory} {key : AnchorKey} {o : Option AnchorId} (h : d.find key = .ok o) :
    d.lookup key = o := by
  rw [lookup, h]
  rfl

theorem lookup_eq_some {d : Directory} {key : AnchorKey} {id : AnchorId} :
    d.lookup key = some id ↔ d.find key = .ok (some id) := by
  unfold lookup
  cases d.find key <;> simp [Except.toOption]

theorem find_holds {d : Directory} {id : AnchorId} {key : AnchorKey} (h : d.find key = .ok (some id)) :
    ∃ a, d.get? id = some a ∧ a.key = key := by
  obtain ⟨-, hfound⟩ := findM?_eq_some (bucket_of_find h)
  exact holds_iff.mp (isFor_eq_ok hfound).symm

theorem spawn_ok {d : Directory} (hd : d.arena.Sound) {key : AnchorKey} (hk : d.find key = .ok none) :
    ∃ id d', d.spawn key = .ok (id, d') ∧ d'.arena.Sound ∧ d.get? id = none ∧
      ∀ j, d'.get? j = if j = id then some { key } else d.get? j := by
  obtain ⟨arena, buckets, resizes⟩ := d
  refine ⟨⟨(arena.insert { key }).1⟩, _, by simp only [spawn, hk, ok_bind]; rfl, ?_, Arena.get?_insert_new hd _,
    fun j => ?_⟩
  · split <;> exact Arena.insert_sound hd _
  · have hj : (arena.insert { key }).2.get? j.num =
        if j = ⟨(arena.insert { key }).1⟩ then some { key } else arena.get? j.num := by
      rw [Arena.get?_insert hd]
      by_cases e : j = ⟨(arena.insert { key }).1⟩
      · subst e; simp
      · simp [e, num_ne e]
    split <;> exact hj

theorem setNext_ok {d : Directory} {id : AnchorId} {a : Anchor} (h : d.get? id = some a) (next : AnchorId) :
    ∃ d', d.setNext id next = .ok d' ∧ (d.arena.Sound → d'.arena.Sound) ∧
      ∀ j, d'.get? j = if j = id then some { a with next := some next } else d.get? j := by
  refine ⟨_, by simp only [setNext, get_eq_ok h]; rfl, fun hd => Arena.modify_sound hd _ _, fun j => ?_⟩
  have h' : d.arena.get? id.num = some a := h
  simp only [get?, Arena.get?_modify, h']
  by_cases e : j = id
  · subst e; simp
  · simp [e, num_ne e]

theorem get?_forgetHints (d : Directory) (evicted : AnchorId → Bool) (id : AnchorId) :
    (d.forgetHints evicted).get? id =
      (d.get? id).map fun a => { a with next := a.next.filter fun id => !evicted id } :=
  Arena.get?_map ..

theorem get?_removed (d : Directory) (id j : AnchorId) :
    ((d.remove? id).elim d (·.2)).get? j = if j = id then none else d.get? j := by
  unfold remove?
  cases h : d.arena.remove? id.num with
  | none =>
    have hi : d.get? id = none := Arena.remove?_eq_none.mp h
    by_cases e : j = id
    · subst e; simpa using hi
    · simp [e]
  | some p =>
    have hj := (Arena.get?_of_remove? h).2 j.num
    simp only [Option.map_some, Option.elim_some, get?] at hj ⊢
    rw [hj]
    by_cases e : j = id
    · subst e; simp
    · simp [e, num_ne e]

theorem removed_sound {d : Directory} (hd : d.arena.Sound) (id : AnchorId) :
    ((d.remove? id).elim d (·.2)).arena.Sound := by
  unfold remove?
  cases h : d.arena.remove? id.num with
  | none => simpa using hd
  | some p => exact Arena.remove?_sound hd h

end Directory
end CallGraph
