/-
  CallGraph.Proofs.Buckets — nothing gets lost in the hash tables.

  In a filed table every context lies in the bucket of its hash, so a chain that is there is found and
  never gets a second number (`ContextTable.Filed.intern`). The same holds of anchors and their keys
  (`Directory.Filed.spawn`). Growing files everything again. So the sizes of the tables count chains and
  keys, whatever numbers these got.
-/

import CallGraph.Proofs.Arriving

namespace CallGraph

/-! ## Contexts -/

namespace ContextTable

variable {t t' : ContextTable}

/-- Every context is in the bucket of its hash, and no chain has two numbers. -/
structure Filed (t : ContextTable) : Prop where
  pos : 0 < t.buckets.size
  hashed : ∀ c x, t.get? c = some x → x.hash = chainHash x.chain
  filed : ∀ c x, t.get? c = some x → c ∈ t.buckets.getD (bucketOf x.hash t.buckets.size) []
  distinct : ∀ c d x y, t.get? c = some x → t.get? d = some y → x.chain = y.chain → c = d

/-- One context more, for a chain that had none. -/
structure Adds (t t' : ContextTable) (c : ContextId) : Prop where
  size : t'.size = t.size + 1
  old : ∀ d y, t'.get? d = some y → d = c ∨ t.get? d = some y
  fresh : ∀ x, t'.get? c = some x → ∀ d y, t.get? d = some y → y.chain ≠ x.chain

/-- With one context more at most, the chains that are there are those that were and that of the context. -/
theorem known_iff {c : ContextId} (h : t' = t ∨ t.Adds t' c) (hkept : t.Extends t') {x : Context}
    (hx : t'.get? c = some x) (chain : List FnId) :
    (∃ d y, t'.get? d = some y ∧ y.chain = chain) ↔ x.chain = chain ∨ ∃ d y, t.get? d = some y ∧ y.chain = chain := by
  constructor
  · rintro ⟨d, y, hy, rfl⟩
    obtain rfl | hadds := h
    · exact .inr ⟨d, y, hy, rfl⟩
    · obtain rfl | hy := hadds.old d y hy
      · cases hx.symm.trans hy
        exact .inl rfl
      · exact .inr ⟨d, y, hy, rfl⟩
  · rintro (rfl | ⟨d, y, hy, rfl⟩)
    · exact ⟨c, x, hx, rfl⟩
    · exact ⟨d, y, hkept.kept d y hy, rfl⟩

theorem ofBuckets_filed {n : Nat} {limit : Option Nat} (h : ofBuckets n limit = .ok t) :
    t.Filed ∧ t.size = 0 ∧ ∀ c x, t.get? c ≠ some x := by
  obtain ⟨hn, -, rfl⟩ := ofBuckets_eq_ok.mp h
  have hnone : ∀ c x, get? { buckets := Array.replicate n [], depthLimit := limit } c ≠ some x := by
    intro c x hx
    cases hx
  refine ⟨⟨?_, fun c x hx => absurd hx (hnone c x), fun c x hx => absurd hx (hnone c x),
    fun c d x y hx => absurd hx (hnone c x)⟩, rfl, hnone⟩
  rw [Array.size_replicate]
  exact Nat.pos_of_ne_zero hn

theorem Filed.of_lookup_eq_none (h : t.Filed) {chain : List FnId}
    (hnone : t.lookup (chainHash chain) chain = .ok none) {c : ContextId} {x : Context} (hx : t.get? c = some x) :
    x.chain ≠ chain := by
  intro e
  have hhash := h.hashed c x hx
  have hmem := h.filed c x hx
  rw [hhash, e] at hmem
  have hnot := findM?_eq_none (bucket_of_lookup hnone) c hmem
  simp [holds, get_eq_ok_iff.mpr hx, hhash, e] at hnot

theorem Filed.grow (h : t.Filed) : t.grow.Filed := by
  refine ⟨by rw [size_grow]; omega, h.hashed, fun c x hx => ?_, h.distinct⟩
  have hmem : (x, c.num) ∈ t.contexts.toList.zipIdx := by
    rw [List.mem_zipIdx_iff_getElem?, Array.getElem?_toList]
    exact hx
  rw [size_grow]
  refine mem_refiled t.contexts.toList.zipIdx (fun p n => bucketOf p.1.hash n)
    (fun p => (⟨p.2⟩ : ContextId)) (Array.replicate (2 * t.buckets.size + 3) []) (fun p => ?_)
    (.inl ⟨_, hmem, rfl, by rw [Array.size_replicate]⟩)
  rw [Array.size_replicate]
  exact bucketOf_lt (by omega) _

theorem get?_add (t : ContextTable) (top : FnId) (callers : List FnId) (hash : UInt64) (c : ContextId) :
    (t.add top callers hash).get? c = if c = ⟨t.size⟩ then some { top, callers, hash } else t.get? c := by
  rw [← get?_insert]
  obtain ⟨-, e | e⟩ := insert_eq t top callers hash
  · rw [e]
  · rw [e]
    rfl

theorem Filed.add (h : t.Filed) {top : FnId} {callers : List FnId}
    (hnew : ∀ c x, t.get? c = some x → x.chain ≠ top :: callers) :
    (t.add top callers (chainHash (top :: callers))).Filed := by
  have hget := t.get?_add top callers (chainHash (top :: callers))
  have hsize : (t.add top callers (chainHash (top :: callers))).buckets.size = t.buckets.size := Array.size_modify
  refine ⟨by rw [hsize]; exact h.pos, fun c x hx => ?_, fun c x hx => ?_, write_distinct hget hnew h.distinct⟩
  · obtain ⟨-, rfl⟩ | ⟨-, hx⟩ := write_cases hget hx
    · rfl
    · exact h.hashed c x hx
  · rw [hsize]
    refine (mem_modify_cons ..).mpr ?_
    obtain ⟨rfl, rfl⟩ | ⟨-, hx⟩ := write_cases hget hx
    · exact .inl ⟨rfl, bucketOf_lt h.pos _, rfl⟩
    · exact .inr (h.filed c x hx)

/-- A chain that was not there gets the next number. -/
theorem Filed.insert (h : t.Filed) {top : FnId} {callers : List FnId}
    (hnew : ∀ c x, t.get? c = some x → x.chain ≠ top :: callers) :
    (t.insert top callers (chainHash (top :: callers))).2.Filed ∧
      t.Adds (t.insert top callers (chainHash (top :: callers))).2
        (t.insert top callers (chainHash (top :: callers))).1 := by
  obtain ⟨hid, htable⟩ := insert_eq t top callers (chainHash (top :: callers))
  refine ⟨?_, ?_, fun d y hy => ?_, fun x hx d y hy => ?_⟩
  · obtain e | e := htable <;> rw [e]
    · exact h.add hnew
    · exact (h.add hnew).grow
  · obtain e | e := htable <;> rw [e] <;> exact Array.size_push _
  · exact (write_cases (t.get?_insert _ _ _) hy).imp (fun e => e.1.trans hid.symm) And.right
  · rw [hid, get?_insert, if_pos rfl] at hx
    cases hx
    exact hnew d y hy

/-- Interning adds a context only for a chain that was not there. -/
theorem Filed.intern (h : t.Filed) {F F' : FunctionTable} {chain : List FnId} {c : ContextId}
    (hi : t.intern F chain = .ok (some c, t', F')) : t'.Filed ∧ (t' = t ∨ t.Adds t' c) := by
  cases interned hi with
  | hinted | found => exact ⟨h, .inl rfl⟩
  | added _ _ hnone =>
    obtain ⟨hfiled, hadds⟩ := h.insert fun c x hx => h.of_lookup_eq_none hnone hx
    exact ⟨hfiled, .inr hadds⟩

end ContextTable

/-! ## Anchors -/

namespace Directory

variable {d d' : Directory}

/-- Every live anchor is in the bucket of its key, and no key has two anchors. -/
structure Filed (d : Directory) : Prop where
  indexed : d.Indexed
  filed : ∀ a y, d.get? a = some y → a ∈ d.buckets.getD (bucketOf y.key d.buckets.size) []
  distinct : ∀ a b x y, d.get? a = some x → d.get? b = some y → x.key = y.key → a = b

theorem Filed.pos (h : d.Filed) : 0 < d.buckets.size := FiledBelow.pos h.indexed

theorem ofBuckets_filed {n : Nat} (h : ofBuckets n = .ok d) :
    d.Filed ∧ d.size = 0 ∧ ∀ a y, d.get? a ≠ some y := by
  have hindexed := ofBuckets_indexed h
  obtain ⟨-, rfl⟩ := ofBuckets_eq_ok.mp h
  have hnone : ∀ a y, get? { buckets := Array.replicate n [] } a ≠ some y := by
    intro a y hy
    cases hy
  exact ⟨⟨hindexed, fun a y hy => absurd hy (hnone a y), fun a b x y hx => absurd hx (hnone a x)⟩, rfl, hnone⟩

theorem Filed.of_find_eq_none (h : d.Filed) {key : AnchorKey} (hnone : d.find key = .ok none) {a : AnchorId}
    {y : Anchor} (hy : d.get? a = some y) : y.key ≠ key := by
  intro e
  have hmem := h.filed a y hy
  rw [e] at hmem
  have hnot := isFor_eq_ok (findM?_eq_none (bucket_of_find hnone) a hmem)
  simp [holds, hy, e] at hnot

theorem grow_filed (h : ∀ a b x y, d.get? a = some x → d.get? b = some y → x.key = y.key → a = b) : d.grow.Filed := by
  refine ⟨d.grow_indexed, fun a y hy => ?_, h⟩
  rw [size_grow]
  refine mem_refiled d.toList (fun p n => bucketOf p.2.key n) (fun p => p.1)
    (Array.replicate (2 * d.buckets.size + 3) []) (fun p => ?_)
    (.inl ⟨_, mem_toList.mpr hy, rfl, by rw [Array.size_replicate]⟩)
  rw [Array.size_replicate]
  exact bucketOf_lt (by omega) _

/-- The new anchor is put in front of its bucket, and then the directory may have to grow. -/
theorem spawn_files (hslots : d.arena.Sound) {key : AnchorKey} {a : AnchorId} (hspawn : d.spawn key = .ok (a, d')) :
    ∃ d₁ : Directory, d₁.buckets = addToBucket d.buckets key a ∧ d₁.size = d.size + 1 ∧
      (∀ b, d₁.get? b = if b = a then some { key } else d.get? b) ∧ (d' = d₁ ∨ d' = d₁.grow) := by
  obtain ⟨-, -, -, hget⟩ := spawn_eq hslots hspawn
  obtain ⟨-, -, d₁, harena, hbuckets, hd'⟩ := spawn_parts hspawn
  refine ⟨d₁, hbuckets, ?_, fun b => ?_, hd'⟩
  · rw [size, harena]
    exact d.arena.live_insert _
  · rw [← hget]
    obtain rfl | rfl := hd' <;> rfl

theorem Filed.spawn (h : d.Filed) (hslots : d.arena.Sound) {key : AnchorKey} {a : AnchorId}
    (hspawn : d.spawn key = .ok (a, d')) :
    d'.Filed ∧ d'.size = d.size + 1 ∧ ∀ b y, d.get? b = some y → y.key ≠ key := by
  obtain ⟨hnone, -⟩ := spawn_eq hslots hspawn
  have hnew := fun b y => h.of_find_eq_none (a := b) (y := y) hnone
  obtain ⟨d₁, hbuckets, hlive, hget₁, hd'⟩ := spawn_files hslots hspawn
  have hdistinct := write_distinct hget₁ hnew h.distinct
  have hindexed := h.indexed.spawn hspawn
  obtain rfl | rfl := hd'
  · have hsize : d'.buckets.size = d.buckets.size := by
      rw [hbuckets]
      exact Array.size_modify
    refine ⟨⟨hindexed, fun b y hy => ?_, hdistinct⟩, hlive, hnew⟩
    rw [hsize, hbuckets]
    refine (mem_modify_cons ..).mpr ?_
    obtain ⟨rfl, rfl⟩ | ⟨-, hy⟩ := write_cases hget₁ hy
    · exact .inl ⟨rfl, bucketOf_lt h.pos _, rfl⟩
    · exact .inr (h.filed b y hy)
  · exact ⟨grow_filed hdistinct, hlive, hnew⟩

/-- What is left of a filed directory is filed, as long as it stays in its buckets. -/
theorem Filed.fewer (h : d.Filed) (hindexed : d'.Indexed) (hsize : d'.buckets.size = d.buckets.size)
    (hkept : ∀ a y, d'.get? a = some y → ∃ y₀, d.get? a = some y₀ ∧ y.key = y₀.key)
    (hfiled : ∀ a y j, d'.get? a = some y → a ∈ d.buckets.getD j [] → a ∈ d'.buckets.getD j []) : d'.Filed := by
  refine ⟨hindexed, fun a y hy => ?_, fun a b x y hx hy hxy => ?_⟩
  · obtain ⟨y₀, hy₀, hk⟩ := hkept a y hy
    rw [hsize, hk]
    exact hfiled a y _ hy (h.filed a y₀ hy₀)
  · obtain ⟨x₀, hx₀, hkx⟩ := hkept a x hx
    obtain ⟨y₀, hy₀, hky⟩ := hkept b y hy
    exact h.distinct a b x₀ y₀ hx₀ hy₀ (by rw [← hkx, hxy, hky])

theorem Filed.setNext (h : d.Filed) {a next : AnchorId} (hset : d.setNext a next = .ok d') :
    d'.Filed ∧ d'.size = d.size := by
  obtain ⟨y, hy, hget⟩ := setNext_eq hset
  have hindexed := h.indexed.setNext hset
  obtain ⟨-, -, hset⟩ := bind_eq_ok.mp hset
  cases hset
  refine ⟨h.fewer hindexed rfl (fun b z hz => ?_) fun _ _ _ _ hm => hm, rfl⟩
  rcases write_cases hget hz with ⟨e, rfl⟩ | ⟨-, hz⟩
  · exact ⟨y, by rw [e, hy], rfl⟩
  · exact ⟨z, hz, rfl⟩

end Directory
end CallGraph
