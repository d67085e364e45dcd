/-
  CallGraph.Proofs.Indices — every number in a hash table was handed out.

  A search looks under the numbers that it finds in a bucket, and a hint is looked under as it is; a number beyond
  the table would be a fault. But only numbers that were handed out are filed, whatever is taken away again
  (`FiledBelow`), so every search comes to an end.
  - `ContextTable.Known.lookup_ok`, `ContextTable.Known.hinted_ok`: the buckets of the contexts, and the hints.
  - `Directory.Indexed.find_ok`: the buckets of the anchors, also once anchors were removed.
-/

import CallGraph.Proofs.Activity

namespace CallGraph

/-! ## Buckets -/

section Buckets
variable {ι κ : Type}

theorem getD_replicate (n j : Nat) : (Array.replicate n ([] : List ι)).getD j [] = [] := by
  rw [Array.getD_eq_getD_getElem?, Array.getElem?_replicate]
  split <;> rfl

theorem getD_modify {buckets : Array (List ι)} {i : Nat} (hi : i < buckets.size) (f : List ι → List ι) (j : Nat) :
    (buckets.modify i f).getD j [] = if j = i then f (buckets.getD j []) else buckets.getD j [] := by
  simp only [Array.getD_eq_getD_getElem?, Array.getElem?_modify]
  by_cases e : i = j
  · subst e
    simp [hi]
  · simp [e, Ne.symm e]

theorem mem_modify_cons (buckets : Array (List ι)) (i j : Nat) (x y : ι) :
    y ∈ (buckets.modify i (x :: ·)).getD j [] ↔ (j = i ∧ i < buckets.size ∧ y = x) ∨ y ∈ buckets.getD j [] := by
  simp only [Array.getD_eq_getD_getElem?, Array.getElem?_modify]
  by_cases e : i = j
  · subst e
    by_cases hi : i < buckets.size
    · simp [hi]
    · simp [hi]
  · simp [e, Ne.symm e]

/-- A bucket gets the names of what is filed anew in it, in front of what it has. -/
theorem getD_refiled (l : List κ) (slot : κ → Nat → Nat) (name : κ → ι) (buckets : Array (List ι))
    (hslot : ∀ p, slot p buckets.size < buckets.size) (j : Nat) :
    (l.foldl (fun bs p => bs.modify (slot p bs.size) (name p :: ·)) buckets).getD j [] =
      ((l.filter fun p => slot p buckets.size = j).map name).reverse ++ buckets.getD j [] := by
  induction l generalizing buckets with
  | nil => rfl
  | cons q l ih =>
    have hsize : (buckets.modify (slot q buckets.size) (name q :: ·)).size = buckets.size := Array.size_modify
    rw [List.foldl_cons, ih _ fun p => by rw [hsize]; exact hslot p, hsize, getD_modify (hslot q), List.filter_cons]
    by_cases e : slot q buckets.size = j
    · rw [if_pos e.symm, if_pos (decide_eq_true e), List.map_cons, List.reverse_cons, List.append_assoc]
      rfl
    · rw [if_neg (Ne.symm e), if_neg (by simpa using e)]

/-- Everything that is filed anew is in its bucket. -/
theorem mem_refiled (l : List κ) (slot : κ → Nat → Nat) (name : κ → ι) (buckets : Array (List ι))
    (hslot : ∀ p, slot p buckets.size < buckets.size) {y : ι} {j : Nat}
    (h : (∃ p ∈ l, name p = y ∧ slot p buckets.size = j) ∨ y ∈ buckets.getD j []) :
    y ∈ (l.foldl (fun bs p => bs.modify (slot p bs.size) (name p :: ·)) buckets).getD j [] := by
  rw [getD_refiled l slot name buckets hslot, List.mem_append, List.mem_reverse, List.mem_map]
  obtain ⟨p, hp, hname, hj⟩ | h := h
  · exact .inl ⟨p, List.mem_filter.mpr ⟨hp, decide_eq_true hj⟩, hname⟩
  · exact .inr h

theorem size_refiled (l : List κ) (slot : κ → Nat → Nat) (name : κ → ι) (buckets : Array (List ι)) :
    (l.foldl (fun bs p => bs.modify (slot p bs.size) (name p :: ·)) buckets).size = buckets.size := by
  induction l generalizing buckets with
  | nil => rfl
  | cons q l ih => rw [List.foldl_cons, ih, Array.size_modify]

/-- There is a bucket, and only numbers below `n` are filed. -/
structure FiledBelow (num : ι → Nat) (buckets : Array (List ι)) (n : Nat) : Prop where
  pos : 0 < buckets.size
  below : ∀ j, ∀ i ∈ buckets.getD j [], num i < n

namespace FiledBelow

variable {num : ι → Nat} {buckets : Array (List ι)} {m n i : Nat}

theorem replicate (h : 0 < m) : FiledBelow num (Array.replicate m []) n := by
  refine ⟨by rwa [Array.size_replicate], fun j i hi => ?_⟩
  rw [getD_replicate] at hi
  cases hi

theorem mono (h : FiledBelow num buckets m) (hle : m ≤ n) : FiledBelow num buckets n :=
  ⟨h.pos, fun j i hi => Nat.lt_of_lt_of_le (h.below j i hi) hle⟩

theorem cons (h : FiledBelow num buckets n) (i : Nat) {x : ι} (hx : num x < n) :
    FiledBelow num (buckets.modify i (x :: ·)) n := by
  refine ⟨by rw [Array.size_modify]; exact h.pos, fun j y hy => ?_⟩
  rcases (mem_modify_cons ..).mp hy with ⟨-, -, rfl⟩ | hy
  · exact hx
  · exact h.below j y hy

/-- Taking away does no harm. -/
theorem fewer (h : FiledBelow num buckets n) (i : Nat) {f : List ι → List ι} (hf : ∀ l, f l ⊆ l) :
    FiledBelow num (buckets.modify i f) n := by
  refine ⟨by rw [Array.size_modify]; exact h.pos, fun j y hy => h.below j y ?_⟩
  simp only [Array.getD_eq_getD_getElem?, Array.getElem?_modify] at hy ⊢
  split at hy
  · cases hb : buckets[j]? with
    | none => simp [hb] at hy
    | some l =>
      rw [hb] at hy
      exact hf l hy
  · exact hy

theorem refiled (l : List κ) (slot : κ → Nat → Nat) (name : κ → ι) (h : FiledBelow num buckets n)
    (hl : ∀ p ∈ l, num (name p) < n) :
    FiledBelow num (l.foldl (fun bs p => bs.modify (slot p bs.size) (name p :: ·)) buckets) n := by
  induction l generalizing buckets with
  | nil => exact h
  | cons p l ih =>
    obtain ⟨hp, hl⟩ := List.forall_mem_cons.mp hl
    exact ih (h.cons _ hp) hl

/-- A bucket that is searched is there, and the search comes to an end. -/
theorem search (h : FiledBelow num buckets n) (hi : i < buckets.size) {p : ι → Except Fault Bool}
    (hp : ∀ x, num x < n → ∃ found, p x = .ok found) : ∃ ids o, buckets[i]? = some ids ∧ ids.findM? p = .ok o := by
  have hids : buckets[i]? = some buckets[i] := Array.getElem?_eq_getElem hi
  obtain ⟨o, ho⟩ := findM?_ok (l := buckets[i]) (p := p) fun x hx => hp x (h.below i x (by
    rw [Array.getD_eq_getD_getElem?, hids]
    exact hx))
  exact ⟨_, o, hids, ho⟩

end FiledBelow

end Buckets

/-! ## Contexts -/

namespace ContextTable

variable {t : ContextTable} {F G : FunctionTable}

theorem bucketOf_lt {n : Nat} (h : 0 < n) (hash : UInt64) : bucketOf hash n < n := Nat.mod_lt _ h

theorem size_grow (t : ContextTable) : t.grow.buckets.size = 2 * t.buckets.size + 3 := by
  have hsize := size_refiled t.contexts.toList.zipIdx (fun p n => bucketOf p.1.hash n)
    (fun p => (⟨p.2⟩ : ContextId)) (Array.replicate (2 * t.buckets.size + 3) [])
  rw [Array.size_replicate] at hsize
  exact hsize

/-- The table with a chain under the next number, before it may have to grow. -/
def add (t : ContextTable) (top : FnId) (callers : List FnId) (hash : UInt64) : ContextTable :=
  { t with contexts := t.contexts.push { top, callers, hash }, buckets := addToBucket t.buckets hash ⟨t.size⟩ }

theorem insert_eq (t : ContextTable) (top : FnId) (callers : List FnId) (hash : UInt64) :
    (t.insert top callers hash).1 = ⟨t.size⟩ ∧ ((t.insert top callers hash).2 = t.add top callers hash ∨
      (t.insert top callers hash).2 = (t.add top callers hash).grow) := by
  obtain ⟨contexts, buckets, limit, resizes⟩ := t
  refine ⟨rfl, ?_⟩
  simp only [ContextTable.insert]
  split
  · exact .inr rfl
  · exact .inl rfl

/-- The contexts that are filed or hinted at are there. -/
structure Known (t : ContextTable) (F : FunctionTable) : Prop where
  filed : FiledBelow ContextId.num t.buckets t.size
  hinted : ∀ fn c, F.hint? fn = some c → c.num < t.size

theorem ofBuckets_eq_ok {n : Nat} {limit : Option Nat} : ofBuckets n limit = .ok t ↔
    n ≠ 0 ∧ limit ≠ some 0 ∧ t = { buckets := Array.replicate n [], depthLimit := limit } := by
  unfold ofBuckets
  by_cases hn : n = 0
  · simp [hn]
  · by_cases hlimit : limit = some 0
    · simp [hn, hlimit]
    · simp [hn, hlimit, eq_comm]

theorem ofBuckets_known {n : Nat} {limit : Option Nat} (h : ofBuckets n limit = .ok t)
    (hF : ∀ fn, F.hint? fn = none) : t.Known F := by
  obtain ⟨hn, -, rfl⟩ := ofBuckets_eq_ok.mp h
  refine ⟨.replicate (Nat.pos_of_ne_zero hn), fun fn c hc => ?_⟩
  rw [hF] at hc
  cases hc

theorem Known.keeps (h : t.Known F) (hkeeps : F.Keeps G) : t.Known G :=
  ⟨h.filed, fun fn c hc => h.hinted fn c ((hkeeps.hints fn).symm.trans hc)⟩

theorem Known.register (h : t.Known F) (name : String) (object : ObjId) (skip : Bool) :
    t.Known (F.register name object skip).2 :=
  ⟨h.filed, fun fn c hc => h.hinted fn c ((F.hint?_register name object skip fn).symm.trans hc)⟩

theorem Known.setHint (h : t.Known F) {fn : FnId} (hfn : fn.num < F.size) {c : ContextId} (hc : c.num < t.size) :
    t.Known (F.setHint fn c) := by
  refine ⟨h.filed, fun g d hd => ?_⟩
  rw [FunctionTable.hint?_setHint hfn] at hd
  split at hd
  · cases hd
    exact hc
  · exact h.hinted g d hd

theorem size_insert (t : ContextTable) (top : FnId) (callers : List FnId) (hash : UInt64) :
    (t.insert top callers hash).2.size = t.size + 1 := by
  obtain ⟨-, e | e⟩ := insert_eq t top callers hash
  · rw [e]
    exact Array.size_push _
  · rw [e]
    exact Array.size_push _

/-- Growing files the contexts that there are. -/
theorem grow_filed (t : ContextTable) : FiledBelow ContextId.num t.grow.buckets t.grow.size := by
  refine FiledBelow.refiled t.contexts.toList.zipIdx (fun p n => bucketOf p.1.hash n)
    (fun p => (⟨p.2⟩ : ContextId)) (.replicate (Nat.succ_pos _)) fun p hp => ?_
  obtain ⟨hlt, -⟩ := List.getElem?_eq_some_iff.mp (List.mem_zipIdx_iff_getElem?.mp hp)
  rwa [Array.length_toList] at hlt

theorem Known.insert (h : t.Known F) (top : FnId) (callers : List FnId) (hash : UInt64) :
    (t.insert top callers hash).2.Known F := by
  have hsize := t.size_insert top callers hash
  refine ⟨?_, fun fn c hc => ?_⟩
  · obtain ⟨-, e | e⟩ := insert_eq t top callers hash
    · rw [e] at hsize ⊢
      rw [hsize]
      exact (h.filed.mono (Nat.le_succ _)).cons _ (Nat.lt_succ_self _)
    · rw [e]
      exact grow_filed _
  · rw [hsize]
    exact Nat.lt_succ_of_lt (h.hinted fn c hc)

theorem get_ok {c : ContextId} (h : c.num < t.size) : ∃ x, t.get c = .ok x := by
  have hx : t.get? c = some t.contexts[c.num] := Array.getElem?_eq_getElem h
  exact ⟨_, by rw [get, hx]; rfl⟩

theorem holds_ok {c : ContextId} (h : c.num < t.size) (hash : UInt64) (chain : List FnId) :
    ∃ found, t.holds hash chain c = .ok found := by
  obtain ⟨x, hx⟩ := get_ok h
  exact ⟨_, by rw [holds, hx]; rfl⟩

theorem Known.lookup_ok (h : t.Known F) (hash : UInt64) (chain : List FnId) : ∃ o, t.lookup hash chain = .ok o := by
  obtain ⟨ids, o, hids, ho⟩ := h.filed.search (bucketOf_lt h.filed.pos hash) fun c hc => holds_ok hc hash chain
  exact ⟨o, by rw [lookup, hids]; exact ho⟩

theorem Known.hinted_ok (h : t.Known F) {fn : FnId} {f : Function} (hf : F.nodes[fn.num]? = some f) (hash : UInt64)
    (chain : List FnId) : ∃ o, f.hint.filterM (t.holds hash chain) = .ok o := by
  refine filterM_ok fun c hc => holds_ok (h.hinted fn c ?_) hash chain
  rw [FunctionTable.hint?, hf]
  exact hc

end ContextTable

/-! ## Anchors -/

namespace Directory

variable {d d' : Directory} {key : AnchorKey} {a : AnchorId}

theorem bucketOf_lt {n : Nat} (h : 0 < n) (key : AnchorKey) : bucketOf key n < n := Nat.mod_lt _ h

theorem mem_toList {a : AnchorId} {y : Anchor} : (a, y) ∈ d.toList ↔ d.get? a = some y := by
  have hslot : (some y, a.num) ∈ d.arena.slots.toList.zipIdx ↔ d.get? a = some y := by
    rw [List.mem_zipIdx_iff_getElem?, Array.getElem?_toList]
    exact Arena.get?_eq_some.symm
  rw [← hslot]
  constructor
  · intro h
    obtain ⟨⟨i, z⟩, hz, e⟩ := List.mem_map.mp h
    obtain ⟨⟨o, k⟩, hm, ho⟩ := List.mem_filterMap.mp hz
    obtain ⟨w, rfl, hw⟩ := Option.map_eq_some_iff.mp ho
    cases hw
    cases e
    exact hm
  · intro h
    exact List.mem_map.mpr ⟨(a.num, y), List.mem_filterMap.mpr ⟨_, h, rfl⟩, rfl⟩

theorem size_grow (d : Directory) : d.grow.buckets.size = 2 * d.buckets.size + 3 := by
  have hsize := size_refiled d.toList (fun p n => bucketOf p.2.key n) (fun p => p.1)
    (Array.replicate (2 * d.buckets.size + 3) [])
  rw [Array.size_replicate] at hsize
  exact hsize

/-- The anchors that are filed have slots, dead or live. -/
def Indexed (d : Directory) : Prop := FiledBelow AnchorId.num d.buckets d.arena.slots.size

theorem ofBuckets_eq_ok {n : Nat} : ofBuckets n = .ok d ↔ n ≠ 0 ∧ d = { buckets := Array.replicate n [] } := by
  unfold ofBuckets
  by_cases hn : n = 0
  · simp [hn]
  · simp [hn, eq_comm]

theorem ofBuckets_indexed {n : Nat} (h : ofBuckets n = .ok d) : d.Indexed := by
  obtain ⟨hn, rfl⟩ := ofBuckets_eq_ok.mp h
  exact .replicate (Nat.pos_of_ne_zero hn)

theorem Indexed.find_ok (h : d.Indexed) (key : AnchorKey) : ∃ o, d.find key = .ok o := by
  obtain ⟨ids, o, hids, ho⟩ := FiledBelow.search h (bucketOf_lt h.pos key) fun a ha => isFor_ok ha key
  exact ⟨o, by rw [find, hids]; exact ho⟩

/-- So the search is never a fault, and what is seen from outside is its answer. -/
theorem Indexed.find_eq (h : d.Indexed) (key : AnchorKey) : d.find key = .ok (d.lookup key) := by
  obtain ⟨o, ho⟩ := h.find_ok key
  rw [ho, lookup_of_find ho]

theorem grow_indexed (d : Directory) : d.grow.Indexed := by
  refine FiledBelow.refiled d.toList (fun p n => bucketOf p.2.key n) (fun p => p.1) (.replicate (Nat.succ_pos _))
    fun p hp => ?_
  exact (Array.getElem?_eq_some_iff.mp (Arena.get?_eq_some.mp (mem_toList.mp hp))).1

/-- An anchor is made for a key that the search does not find, in a slot of the arena. It is put in front of its bucket,
and then the directory may have to grow. -/
theorem spawn_parts (hspawn : d.spawn key = .ok (a, d')) :
    d.find key = .ok none ∧ a = ⟨(d.arena.insert { key }).1⟩ ∧ ∃ d₁ : Directory, d₁.arena = (d.arena.insert { key }).2 ∧
      d₁.buckets = addToBucket d.buckets key a ∧ (d' = d₁ ∨ d' = d₁.grow) := by
  obtain ⟨o, hfind, hspawn⟩ := bind_eq_ok.mp hspawn
  cases o with
  | some b => cases hspawn
  | none =>
    obtain ⟨arena, buckets, resizes⟩ := d
    simp only [pure_eq_ok, Except.ok.injEq, Prod.mk.injEq] at hspawn
    obtain ⟨rfl, rfl⟩ := hspawn
    refine ⟨hfind, rfl, { arena := (arena.insert { key }).2
                          buckets := addToBucket buckets key ⟨(arena.insert { key }).1⟩
                          resizes }, rfl, rfl, ?_⟩
    split
    · exact .inr rfl
    · exact .inl rfl

theorem Indexed.spawn (h : d.Indexed) (hspawn : d.spawn key = .ok (a, d')) : d'.Indexed := by
  obtain ⟨-, rfl, d₁, harena, hbuckets, rfl | rfl⟩ := spawn_parts hspawn
  · obtain ⟨hle, hlt⟩ := d.arena.size_insert { key }
    rw [Indexed, harena, hbuckets]
    exact (h.mono hle).cons _ hlt
  · exact grow_indexed _

theorem Indexed.removed (h : d.Indexed) (a : AnchorId) : ((d.remove? a).elim d (·.2)).Indexed := by
  unfold remove?
  cases hr : d.arena.remove? a.num with
  | none => exact h
  | some p =>
    refine FiledBelow.mono (h.fewer _ fun l => List.erase_subset) ?_
    exact Nat.le_of_eq (Arena.size_remove? hr).symm

theorem Indexed.of_same (h : d.Indexed) (hbuckets : d'.buckets = d.buckets)
    (hsize : d'.arena.slots.size = d.arena.slots.size) : d'.Indexed := by
  rw [Indexed, hbuckets, hsize]
  exact h

theorem Indexed.setNext (h : d.Indexed) {next : AnchorId} (hset : d.setNext a next = .ok d') : d'.Indexed := by
  obtain ⟨-, -, hset⟩ := bind_eq_ok.mp hset
  cases hset
  exact h.of_same rfl Array.size_modify

theorem Indexed.forgetHints (h : d.Indexed) (evicted : AnchorId → Bool) : (d.forgetHints evicted).Indexed :=
  h.of_same rfl Array.size_map

end Directory
end CallGraph
