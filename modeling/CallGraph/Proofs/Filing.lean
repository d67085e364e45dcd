/-
  CallGraph.Proofs.Filing — the directory of anchors is a finite map.

  Seen from outside a directory maps keys to numbers and numbers to anchors. Making an anchor adds one key, removing one
  takes its key away, and hints to followers do not matter (`Represents`). Inside, an arena that uses slots again and a
  hash table that is filled anew when it grows agree on what is live: a bucket holds the live anchors of its keys, each
  once (`Shelved`), and the free list the dead slots. All of this holds of a directory after any number of operations,
  in whatever order they come (`directory_represents`).
-/

import CallGraph.Proofs.Upkeep

namespace CallGraph.Directory

variable {d d' : Directory} {key : AnchorKey} {a : AnchorId} {y : Anchor} {n : Nat}

/-! ## The listing -/

/-- Anchors are listed in ascending order of their numbers. -/
theorem toList_sorted (d : Directory) : d.toList.Pairwise fun p q => p.1.num < q.1.num := by
  have hzip : d.arena.slots.toList.zipIdx.Pairwise fun p q => p.2 < q.2 := by
    rw [← List.pairwise_map (f := Prod.snd) (R := (· < ·)), List.zipIdx_map_snd]
    exact List.pairwise_lt_range'
  rw [toList, List.pairwise_map]
  refine hzip.filterMap _ fun p q hlt x hx y hy => ?_
  obtain ⟨-, -, rfl⟩ := Option.map_eq_some_iff.mp hx
  obtain ⟨-, -, rfl⟩ := Option.map_eq_some_iff.mp hy
  exact hlt

theorem length_toList (d : Directory) : d.toList.length = d.ids.card := by
  have hnodup : (d.toList.map (·.1.num)).Nodup := by
    rw [List.Nodup, List.pairwise_map]
    exact d.toList_sorted.imp Nat.ne_of_lt
  have hids : d.ids = (d.toList.map (·.1.num)).toFinset := by
    ext i
    rw [mem_ids, List.mem_toFinset, List.mem_map]
    constructor
    · rintro ⟨y, hy⟩
      exact ⟨(⟨i⟩, y), mem_toList.mpr hy, rfl⟩
    · rintro ⟨⟨a, y⟩, hm, rfl⟩
      exact ⟨y, mem_toList.mp hm⟩
  rw [hids, List.toFinset_card_of_nodup hnodup, List.length_map]

/-! ## Buckets -/

/-- A bucket holds the live anchors whose keys belong in it, each once. -/
structure Shelved (d : Directory) : Prop where
  mem : ∀ j a, a ∈ d.buckets.getD j [] ↔ ∃ y, d.get? a = some y ∧ bucketOf y.key d.buckets.size = j
  nodup : ∀ j, (d.buckets.getD j []).Nodup

theorem ofBuckets_shelved (h : ofBuckets n = .ok d) : d.Shelved := by
  obtain ⟨-, -, hnone⟩ := ofBuckets_filed h
  obtain ⟨-, rfl⟩ := ofBuckets_eq_ok.mp h
  refine ⟨fun j a => ?_, fun j => ?_⟩
  · rw [getD_replicate]
    refine iff_of_false List.not_mem_nil ?_
    rintro ⟨y, hy, -⟩
    exact hnone a y hy
  · rw [getD_replicate]
    exact List.nodup_nil

/-- Growing loses and doubles nothing: a bucket is filled from the listing. -/
theorem grow_shelved (d : Directory) : d.grow.Shelved := by
  have hslot : ∀ p : AnchorId × Anchor,
      bucketOf p.2.key (Array.replicate (2 * d.buckets.size + 3) ([] : List AnchorId)).size <
        (Array.replicate (2 * d.buckets.size + 3) ([] : List AnchorId)).size := by
    intro p
    rw [Array.size_replicate]
    exact bucketOf_lt (Nat.succ_pos _) _
  -- Each bucket has what the listing files in it, and nothing from before.
  have hbucket : ∀ j, d.grow.buckets.getD j [] =
      ((d.toList.filter fun p => bucketOf p.2.key d.grow.buckets.size = j).map (·.1)).reverse := by
    intro j
    have hrefiled := getD_refiled d.toList (fun p n => bucketOf p.2.key n) (fun p => p.1) _ hslot j
    rw [getD_replicate, List.append_nil, Array.size_replicate] at hrefiled
    rw [size_grow]
    exact hrefiled
  refine ⟨fun j a => ?_, fun j => ?_⟩
  · rw [hbucket, List.mem_reverse, List.mem_map]
    constructor
    · rintro ⟨⟨a, y⟩, hm, rfl⟩
      obtain ⟨hm, hj⟩ := List.mem_filter.mp hm
      exact ⟨y, mem_toList.mp hm, of_decide_eq_true hj⟩
    · rintro ⟨y, hy, hj⟩
      exact ⟨(a, y), List.mem_filter.mpr ⟨mem_toList.mpr hy, decide_eq_true hj⟩, rfl⟩
  · have hnodup : (d.toList.map (·.1)).Nodup := by
      rw [List.Nodup, List.pairwise_map]
      exact d.toList_sorted.imp fun hlt e => Nat.ne_of_lt hlt (congrArg AnchorId.num e)
    rw [hbucket, List.nodup_reverse]
    exact hnodup.sublist (List.filter_sublist.map _)

theorem Shelved.spawn (h : d.Shelved) (hpos : 0 < d.buckets.size) (hslots : d.arena.Sound)
    (hspawn : d.spawn key = .ok (a, d')) : d'.Shelved := by
  obtain ⟨-, hnew, -⟩ := spawn_eq hslots hspawn
  obtain ⟨d₁, hbuckets, -, hget, hd'⟩ := spawn_files hslots hspawn
  rcases hd' with rfl | rfl
  · have hsize : d'.buckets.size = d.buckets.size := by
      rw [hbuckets]
      exact Array.size_modify
    have hbucket : ∀ j, d'.buckets.getD j [] =
        if j = bucketOf key d.buckets.size then a :: d.buckets.getD j [] else d.buckets.getD j [] := by
      intro j
      rw [hbuckets]
      exact getD_modify (bucketOf_lt hpos key) _ j
    -- The id was free, so no bucket had it.
    have hdead : ∀ j, a ∉ d.buckets.getD j [] := by
      intro j hm
      obtain ⟨y, hy, -⟩ := (h.mem j a).mp hm
      rw [hnew] at hy
      cases hy
    refine ⟨fun j b => ?_, fun j => ?_⟩
    · have hb : b ∈ d'.buckets.getD j [] ↔ (j = bucketOf key d.buckets.size ∧ b = a) ∨ b ∈ d.buckets.getD j [] := by
        rw [hbucket]
        split
        · rename_i e
          rw [List.mem_cons, and_iff_right e]
        · rename_i e
          rw [or_iff_right fun h => e h.1]
      rw [hb, hsize, exists_write_iff hget hnew, h.mem j b, and_comm, eq_comm (a := j)]
    · rw [hbucket]
      split
      · exact List.nodup_cons.mpr ⟨hdead j, h.nodup j⟩
      · exact h.nodup j
  · exact grow_shelved d₁

theorem Shelved.remove (h : d.Shelved) (hpos : 0 < d.buckets.size) (hr : d.remove? a = some (y, d')) : d'.Shelved := by
  obtain ⟨hy, hget, hbuckets⟩ := remove_spec hr
  have hsize : d'.buckets.size = d.buckets.size := by
    rw [hbuckets]
    exact Array.size_modify
  have hbucket : ∀ j, d'.buckets.getD j [] =
      if j = bucketOf y.key d.buckets.size then (d.buckets.getD j []).erase a else d.buckets.getD j [] := by
    intro j
    rw [hbuckets]
    exact getD_modify (bucketOf_lt hpos y.key) _ j
  refine ⟨fun j b => ?_, fun j => ?_⟩
  · have hb : b ∈ d'.buckets.getD j [] ↔ b ≠ a ∧ b ∈ d.buckets.getD j [] := by
      rw [hbucket]
      split
      · exact (h.nodup j).mem_erase_iff
      · rename_i e
        -- The anchor is in no other bucket, so nothing is missing there.
        refine (and_iff_right_of_imp fun hm hb => ?_).symm
        obtain ⟨z, hz, hj⟩ := (h.mem j b).mp hm
        rw [hb, hy] at hz
        cases hz
        exact e hj.symm
    rw [hb, hsize, hget]
    by_cases e : b = a
    · rw [if_pos e]
      refine iff_of_false (fun h => h.1 e) ?_
      rintro ⟨z, hz, -⟩
      cases hz
    · rw [if_neg e, and_iff_right e]
      exact h.mem j b
  · rw [hbucket]
    split
    · exact (h.nodup j).erase a
    · exact h.nodup j

/-- Only keys decide about buckets. -/
theorem Shelved.of_keys (h : d.Shelved) (hbuckets : d'.buckets = d.buckets)
    (hkeys : ∀ b, (d'.get? b).map (·.key) = (d.get? b).map (·.key)) : d'.Shelved := by
  have hlive : ∀ b (p : AnchorKey → Prop), (∃ y, d'.get? b = some y ∧ p y.key) ↔ ∃ y, d.get? b = some y ∧ p y.key := by
    intro b p
    have hb := hkeys b
    cases hy : d.get? b <;> cases hy' : d'.get? b <;> simp_all
  refine ⟨fun j b => ?_, fun j => ?_⟩
  · rw [hbuckets, hlive b fun k => bucketOf k d.buckets.size = j]
    exact h.mem j b
  · rw [hbuckets]
    exact h.nodup j

/-! ## Look-ups after an operation -/

/-- A look-up depends on who holds the key. -/
theorem lookup_congr (h : d.Filed) (h' : d'.Filed) {key : AnchorKey} (hkey : ∀ b, d'.holds b key = d.holds b key) :
    d'.lookup key = d.lookup key := by
  refine Option.ext fun b => ?_
  rw [h.lookup_eq_some_iff, h'.lookup_eq_some_iff, hkey]

theorem holds_of_get? (h : d.get? a = some y) (key : AnchorKey) : d.holds a key = decide (y.key = key) := by
  rw [holds, h]

theorem holds_of_dead (h : d.get? a = none) (key : AnchorKey) : d.holds a key = false := by
  rw [holds, h]

theorem holds_congr (h : d'.get? a = d.get? a) (key : AnchorKey) : d'.holds a key = d.holds a key := by
  rw [holds, holds, h]

/-- The new anchor has its key, and the other keys have what they had. -/
theorem Filed.lookup_spawn (h : d.Filed) (hslots : d.arena.Sound) (hspawn : d.spawn key = .ok (a, d')) (k : AnchorKey) :
    d'.lookup k = if k = key then some a else d.lookup k := by
  obtain ⟨h', -⟩ := h.spawn hslots hspawn
  obtain ⟨-, hnew, -, hget⟩ := spawn_eq hslots hspawn
  have ha : d'.get? a = some { key } := by rw [hget, if_pos rfl]
  split
  · rename_i e
    rw [h'.lookup_eq_some_iff, holds_of_get? ha, e]
    exact decide_eq_true rfl
  · rename_i e
    refine lookup_congr h h' fun b => ?_
    by_cases hb : b = a
    · rw [hb, holds_of_get? ha, holds_of_dead hnew]
      exact decide_eq_false (Ne.symm e)
    · exact holds_congr (by rw [hget, if_neg hb]) k

/-- The key of the anchor that is gone has none, and the other keys have what they had. -/
theorem Filed.lookup_remove (h : d.Filed) (hr : d.remove? a = some (y, d')) (k : AnchorKey) :
    d'.lookup k = if k = y.key then none else d.lookup k := by
  have h' : d'.Filed := by
    have hremoved := h.removed a
    rw [hr] at hremoved
    exact hremoved
  obtain ⟨hy, hget, -⟩ := remove_spec hr
  have ha : d'.get? a = none := by rw [hget, if_pos rfl]
  split
  · rename_i e
    rw [Option.eq_none_iff_forall_ne_some]
    intro b hb
    obtain ⟨z, hz, hk⟩ := holds_iff.mp (h'.lookup_eq_some_iff.mp hb)
    rw [hget] at hz
    split at hz
    · cases hz
    · rename_i hne
      exact hne (h.distinct b a z y hz hy (hk.trans e))
  · rename_i e
    refine lookup_congr h h' fun b => ?_
    by_cases hb : b = a
    · rw [hb, holds_of_dead ha, holds_of_get? hy]
      exact (decide_eq_false (Ne.symm e)).symm
    · exact holds_congr (by rw [hget, if_neg hb]) k

/-! ## Any number of operations -/

/-- A directory after any operations on an empty one with `n` buckets. -/
inductive Used (n : Nat) : Directory → Prop
  | start {d : Directory} : ofBuckets n = .ok d → Used n d
  | spawn {d d' : Directory} {key : AnchorKey} {a : AnchorId} : Used n d → d.spawn key = .ok (a, d') → Used n d'
  | remove {d d' : Directory} {a : AnchorId} {y : Anchor} : Used n d → d.remove? a = some (y, d') → Used n d'
  | setNext {d d' : Directory} {a next : AnchorId} : Used n d → d.setNext a next = .ok d' → Used n d'
  | forgetHints {d : Directory} (evicted : AnchorId → Bool) : Used n d → Used n (d.forgetHints evicted)

/-- Arena, table and count agree. -/
structure Kept (d : Directory) : Prop where
  slots : d.arena.Sound
  filed : d.Filed
  shelved : d.Shelved
  counted : d.Counted

theorem ofBuckets_kept (h : ofBuckets n = .ok d) : d.Kept := by
  refine ⟨?_, (ofBuckets_filed h).1, ofBuckets_shelved h, ofBuckets_counted h⟩
  obtain ⟨-, rfl⟩ := ofBuckets_eq_ok.mp h
  exact Arena.empty_sound

theorem Kept.spawn (k : d.Kept) (hspawn : d.spawn key = .ok (a, d')) : d'.Kept := by
  obtain ⟨-, -, hslots, -⟩ := spawn_eq k.slots hspawn
  exact ⟨hslots, (k.filed.spawn k.slots hspawn).1, k.shelved.spawn k.filed.pos k.slots hspawn,
    k.counted.spawn k.slots hspawn⟩

theorem Kept.remove (k : d.Kept) (hr : d.remove? a = some (y, d')) : d'.Kept := by
  have hslots := removed_sound k.slots a
  have hfiled := k.filed.removed a
  have hcounted := k.counted.removed a
  rw [hr] at hslots hfiled hcounted
  exact ⟨hslots, hfiled, k.shelved.remove k.filed.pos hr, hcounted⟩

theorem Kept.setNext (k : d.Kept) {next : AnchorId} (hs : d.setNext a next = .ok d') : d'.Kept := by
  obtain ⟨y, hy, hget⟩ := setNext_eq hs
  obtain ⟨d'', hs', hslots, -⟩ := setNext_ok hy next
  cases hs.symm.trans hs'
  refine ⟨hslots k.slots, (k.filed.setNext hs).1, k.shelved.of_keys ?_ fun b => ?_, k.counted.setNext hs⟩
  · obtain ⟨-, -, h⟩ := bind_eq_ok.mp hs
    cases h
    rfl
  · rw [hget]
    split
    · rename_i e
      rw [e, hy]
      rfl
    · rfl

theorem Kept.forgetHints (k : d.Kept) (evicted : AnchorId → Bool) : (d.forgetHints evicted).Kept := by
  refine ⟨Arena.map_sound k.slots _, k.filed.forgetHints evicted, k.shelved.of_keys rfl fun b => ?_,
    k.counted.forgetHints evicted⟩
  rw [get?_forgetHints, Option.map_map]
  rfl

theorem Used.kept (u : Used n d) : d.Kept := by
  induction u with
  | start h => exact ofBuckets_kept h
  | spawn _ h ih => exact ih.spawn h
  | remove _ h ih => exact ih.remove h
  | setNext _ h ih => exact ih.setNext h
  | forgetHints evicted _ ih => exact ih.forgetHints evicted

/-! ## A finite map -/

/-- What a directory answers and does, as a map from keys to numbers of live anchors. -/
structure Represents (d : Directory) : Prop where
  /-- The search for a key comes to its end. -/
  find : ∀ key, d.find key = .ok (d.lookup key)
  /-- A look-up finds the number that is live for the key, and there is one at most. -/
  lookup : ∀ key a, d.lookup key = some a ↔ ∃ y, d.get? a = some y ∧ y.key = key
  distinct : ∀ a b x y, d.get? a = some x → d.get? b = some y → x.key = y.key → a = b
  /-- A key that is absent can be added, under a number that is not live. -/
  spawn : ∀ key, d.lookup key = none → ∃ a d', d.spawn key = .ok (a, d') ∧ d.get? a = none ∧
    (∀ b, d'.get? b = if b = a then some { key } else d.get? b) ∧
    ∀ k, d'.lookup k = if k = key then some a else d.lookup k
  /-- A live anchor can be removed, and its key alone becomes absent. -/
  remove : ∀ a y, d.get? a = some y → ∃ d', d.remove? a = some (y, d') ∧
    (∀ b, d'.get? b = if b = a then none else d.get? b) ∧ ∀ k, d'.lookup k = if k = y.key then none else d.lookup k
  /-- Nothing else can, and nothing is changed. -/
  removeDead : ∀ a, d.get? a = none → d.remove? a = none
  forgetHints : ∀ evicted k, (d.forgetHints evicted).lookup k = d.lookup k
  /-- The live anchors are listed in order, each once, and counted. -/
  listed : ∀ a y, (a, y) ∈ d.toList ↔ d.get? a = some y
  sorted : d.toList.Pairwise fun p q => p.1.num < q.1.num
  size : d.size = d.toList.length ∧ d.size = d.ids.card
  /-- A live number is in the bucket of its key, once, and in no other; a dead one is in none. -/
  buckets : ∀ a y, d.get? a = some y → ∀ j,
    (d.buckets.getD j []).count a = if j = bucketOf y.key d.buckets.size then 1 else 0
  unfiled : ∀ a, d.get? a = none → ∀ j, a ∉ d.buckets.getD j []
  /-- The dead slots can be used again, each once. -/
  free : d.arena.free.Nodup ∧ ∀ i, i ∈ d.arena.free ↔ i < d.arena.slots.size ∧ d.get? ⟨i⟩ = none

theorem Kept.represents (k : d.Kept) : d.Represents where
  find := k.filed.indexed.find_eq
  lookup key a := by rw [k.filed.lookup_eq_some_iff, holds_iff]
  distinct := k.filed.distinct
  spawn key hnone := by
    have hfind : d.find key = .ok none := by rw [k.filed.indexed.find_eq, hnone]
    obtain ⟨a, d', hspawn, -, hnew, hget⟩ := spawn_ok k.slots hfind
    exact ⟨a, d', hspawn, hnew, hget, k.filed.lookup_spawn k.slots hspawn⟩
  remove a y hy := by
    cases hr : d.remove? a with
    | none =>
      rw [remove?, Option.map_eq_none_iff, Arena.remove?_eq_none] at hr
      exact absurd (hy.symm.trans hr) (Option.some_ne_none y)
    | some p =>
      obtain ⟨y', d'⟩ := p
      obtain ⟨hy', hget, -⟩ := remove_spec hr
      cases hy.symm.trans hy'
      exact ⟨d', rfl, hget, k.filed.lookup_remove hr⟩
  removeDead a hdead := by
    rw [remove?, Option.map_eq_none_iff, Arena.remove?_eq_none]
    exact hdead
  forgetHints evicted key := by
    refine lookup_congr k.filed (k.forgetHints evicted).filed fun b => ?_
    rw [holds, holds, get?_forgetHints]
    cases d.get? b <;> rfl
  listed _ _ := mem_toList
  sorted := d.toList_sorted
  size := ⟨k.counted.trans d.length_toList.symm, k.counted⟩
  buckets a y hy j := by
    have hmem : a ∈ d.buckets.getD j [] ↔ j = bucketOf y.key d.buckets.size := by
      rw [k.shelved.mem]
      constructor
      · rintro ⟨z, hz, rfl⟩
        cases hy.symm.trans hz
        rfl
      · rintro rfl
        exact ⟨y, hy, rfl⟩
    split
    · rename_i e
      exact List.count_eq_one_of_mem (k.shelved.nodup j) (hmem.mpr e)
    · rename_i e
      exact List.count_eq_zero.mpr fun hm => e (hmem.mp hm)
  unfiled a hdead j hm := by
    obtain ⟨y, hy, -⟩ := (k.shelved.mem j a).mp hm
    exact absurd (hdead.symm.trans hy) (Option.some_ne_none y).symm
  free := ⟨k.slots.nodup, fun _ => k.slots.mem_free_iff⟩

/-- From an empty directory with any number of buckets, after any operations in any order. -/
theorem directory_represents (hn : 0 < n) : (∃ d, ofBuckets n = .ok d) ∧ ∀ d, Used n d → d.Represents := by
  exact ⟨⟨_, ofBuckets_eq_ok.mpr ⟨Nat.ne_of_gt hn, rfl⟩⟩, fun d u => u.kept.represents⟩

theorem Used.removed (u : Used n d) (a : AnchorId) : Used n ((d.remove? a).elim d (·.2)) := by
  cases hr : d.remove? a with
  | none => exact u
  | some p => exact u.remove hr

/-- Three keys of one bucket: the second one is left, and the third one gets the number of the first. -/
def refilledDirectory : Except Fault Directory := do
  let d ← ofBuckets 1
  let (a, d) ← d.spawn { block := ⟨0⟩, context := ⟨0⟩, thread := ⟨1⟩ }
  let (_, d) ← d.spawn { block := ⟨5⟩, context := ⟨0⟩, thread := ⟨1⟩ }
  let (_, d) ← ((d.remove? a).elim d (·.2)).spawn { block := ⟨7⟩, context := ⟨3⟩, thread := ⟨1⟩ }
  pure (d.forgetHints fun _ => true)

theorem refilledDirectory_used (h : refilledDirectory = .ok d) : Used 1 d := by
  obtain ⟨d₀, h₀, h⟩ := bind_eq_ok.mp h
  obtain ⟨⟨a, d₁⟩, h₁, h⟩ := bind_eq_ok.mp h
  obtain ⟨⟨b, d₂⟩, h₂, h⟩ := bind_eq_ok.mp h
  obtain ⟨⟨c, d₃⟩, h₃, h⟩ := bind_eq_ok.mp h
  cases h
  exact (((((Used.start h₀).spawn h₁).spawn h₂).removed a).spawn h₃).forgetHints _

theorem directory_represents_refilled :
    0 < 1 ∧ ∃ d, Used 1 d ∧ d.lookup { block := ⟨0⟩, context := ⟨0⟩, thread := ⟨1⟩ } = none ∧
      d.lookup { block := ⟨5⟩, context := ⟨0⟩, thread := ⟨1⟩ } = some ⟨1⟩ ∧
      d.lookup { block := ⟨7⟩, context := ⟨3⟩, thread := ⟨1⟩ } = some ⟨0⟩ ∧ d.resizes = 1 ∧ d.Represents := by
  have hpos : 0 < 1 := Nat.one_pos
  have hrun : refilledDirectory.map (fun d => (d.lookup { block := ⟨0⟩, context := ⟨0⟩, thread := ⟨1⟩ },
      d.lookup { block := ⟨5⟩, context := ⟨0⟩, thread := ⟨1⟩ },
      d.lookup { block := ⟨7⟩, context := ⟨3⟩, thread := ⟨1⟩ }, d.resizes)) =
      .ok (none, some ⟨1⟩, some ⟨0⟩, 1) := by decide +kernel
  obtain ⟨d, hd, h⟩ := map_eq_ok.mp hrun
  simp only [Prod.mk.injEq] at h
  obtain ⟨hgone, hleft, hnew, hresizes⟩ := h
  have u := refilledDirectory_used hd
  obtain ⟨-, hrepresents⟩ := directory_represents hpos
  exact ⟨hpos, d, u, hgone, hleft, hnew, hresizes, hrepresents d u⟩

end CallGraph.Directory
