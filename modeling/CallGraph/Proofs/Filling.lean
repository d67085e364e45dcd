/-
  CallGraph.Proofs.Filling — how full the table of contexts gets.

  A chain that comes in makes the table grow if ten times the contexts, divided by the buckets without remainder, is
  more than eight. So the table grows when it is nine tenths full, and not before (`overfull_iff`). A call grows it
  once at most, and one growth is always enough (`intern_growth`). Over any course of calls the table stays less than
  nine tenths full, and the number of its buckets is known from the growths alone (`load_stays_below`). It can be
  more than eight tenths full (`more_than_eight_tenths`).
-/

import CallGraph.Proofs.Interning
import Mathlib.Algebra.Group.Nat.Defs

namespace CallGraph.ContextTable

variable {t t' t₀ : ContextTable} {F F' F₀ : FunctionTable} {n : Nat} {limit : Option Nat}

/-! ## One call -/

/-- The remainder that is dropped is what lies between eight and nine tenths. -/
theorem overfull_iff {size buckets : Nat} (h : 0 < buckets) : 10 * size / buckets > 8 ↔ 9 * buckets ≤ 10 * size := by
  rw [gt_iff_lt, Nat.lt_iff_add_one_le, Nat.le_div_iff_mul_le h]

/-- What a call does to the number of contexts and of buckets. -/
inductive Growth (t t' : ContextTable) : Prop
  /-- No chain came in. -/
  | still : t'.size = t.size → t'.buckets.size = t.buckets.size → t'.resizes = t.resizes → Growth t t'
  /-- A chain came in, and there was room for it. -/
  | filled : t'.size = t.size + 1 → t'.buckets.size = t.buckets.size → t'.resizes = t.resizes →
      10 * t'.size < 9 * t.buckets.size → Growth t t'
  /-- A chain came in that would have made the table nine tenths full or more. -/
  | grown : t'.size = t.size + 1 → t'.buckets.size = 2 * t.buckets.size + 3 → t'.resizes = t.resizes + 1 →
      9 * t.buckets.size ≤ 10 * t'.size → Growth t t'

theorem insert_growth (h : 0 < t.buckets.size) (top : FnId) (callers : List FnId) (hash : UInt64) :
    t.Growth (t.insert top callers hash).2 := by
  obtain ⟨contexts, buckets, depth, resizes⟩ := t
  have hbuckets : (addToBucket buckets hash ⟨contexts.size⟩).size = buckets.size := Array.size_modify
  have hfull : 10 * (contexts.push { top, callers, hash }).size / (addToBucket buckets hash ⟨contexts.size⟩).size > 8 ↔
      _ := overfull_iff (hbuckets ▸ h)
  simp only [insert]
  split
  · rename_i hload
    have hload := hfull.mp hload
    rw [hbuckets] at hload
    exact .grown (Array.size_push _) (by rw [size_grow]; exact congrArg (2 * · + 3) hbuckets) rfl hload
  · rename_i hload
    have hload := Nat.lt_of_not_le (mt hfull.mpr hload)
    rw [hbuckets] at hload
    exact .filled (Array.size_push _) hbuckets rfl hload

theorem intern_growth (h : 0 < t.buckets.size) {chain : List FnId} {c : Option ContextId}
    (hi : t.intern F chain = .ok (c, t', F')) : t.Growth t' := by
  cases interned hi with
  | empty | hinted | found => exact .still rfl rfl rfl
  | added => exact insert_growth h ..

/-! ## Calls one after the other -/

/-- How many contexts there are for how many buckets, where the table had `n` buckets once. -/
structure Filling (n : Nat) (t : ContextTable) : Prop where
  load : 10 * t.size < 9 * t.buckets.size
  /-- Three more than the buckets is doubled by a growth. -/
  buckets : t.buckets.size + 3 = 2 ^ t.resizes * (n + 3)

theorem Filling.pos (f : Filling n t) : 0 < t.buckets.size := by
  have := f.load
  omega

/-- One growth is enough, whatever room there was. -/
theorem Filling.growth (f : Filling n t) (g : t.Growth t') : Filling n t' := by
  have hload := f.load
  have hbuckets := f.buckets
  cases g with
  | still hsize hsame hresizes => exact ⟨by rw [hsize, hsame]; exact hload, by rw [hsame, hresizes]; exact hbuckets⟩
  | filled _ hsame hresizes hroom => exact ⟨by rw [hsame]; exact hroom, by rw [hsame, hresizes]; exact hbuckets⟩
  | grown hsize hmore hresizes =>
    refine ⟨by omega, ?_⟩
    rw [hresizes, Nat.pow_succ, Nat.mul_right_comm, ← hbuckets, hmore]
    omega

theorem Interning.filling {past : List (List FnId × Option ContextId)} (h : Interning t₀ F₀ past t F)
    (f : Filling n t₀) : Filling n t := by
  induction h with
  | refl => exact f
  | functions _ _ ih => exact ih
  | intern _ hi ih => exact ih.growth (intern_growth ih.pos hi)

/-- From an empty table with any number of buckets, over any course of calls: the table is less than nine tenths full,
and the next call grows it once if it would be so no longer, from `b` buckets to `2 * b + 3`, and else not at all. -/
theorem load_stays_below (hn : 0 < n) (hlimit : limit ≠ some 0) :
    ∃ t₀, ofBuckets n limit = .ok t₀ ∧ ∀ F₀ past t F, Interning t₀ F₀ past t F →
      10 * t.size < 9 * t.buckets.size ∧ t.buckets.size + 3 = 2 ^ t.resizes * (n + 3) ∧
      ∀ chain c t' F', t.intern F chain = .ok (c, t', F') → t.Growth t' := by
  have h₀ : ofBuckets n limit = .ok { buckets := Array.replicate n [], depthLimit := limit } :=
    ofBuckets_eq_ok.mpr ⟨Nat.ne_of_gt hn, hlimit, rfl⟩
  refine ⟨_, h₀, fun F₀ past t F h => ?_⟩
  have f : Filling n t := by
    refine h.filling ⟨?_, ?_⟩
    · rw [Array.size_replicate]
      exact Nat.mul_pos (by decide) hn
    · rw [Array.size_replicate, Nat.pow_zero, Nat.one_mul]
  exact ⟨f.load, f.buckets, fun chain c t' F' hi => intern_growth f.pos hi⟩

/-- Five chains fit into six buckets, and the sixth one makes them fifteen. -/
def sixChains : List (List FnId) := [[⟨0⟩], [⟨1⟩], [⟨2⟩], [⟨1⟩, ⟨0⟩], [⟨2⟩, ⟨0⟩], [⟨2⟩, ⟨1⟩]]

/-- The answers to some chains come with a course of calls. -/
theorem interning_of_map {chains : List (List FnId)} {α : Type} {f : ContextTable → α} {a : α}
    (h₀ : ofBuckets n limit = .ok t₀)
    (hrun : (ofBuckets n limit >>= fun t => t.internAll F₀ [] chains).map (fun r => f r.2.1) = .ok a) :
    ∃ past t F, Interning t₀ F₀ past t F ∧ f t = a := by
  rw [h₀] at hrun
  obtain ⟨⟨past, t, F⟩, hall, hend⟩ := map_eq_ok.mp hrun
  exact ⟨past, t, F, (Interning.refl t₀ F₀).all chains hall, hend⟩

theorem load_stays_below_sixChains :
    0 < 6 ∧ (none : Option Nat) ≠ some 0 ∧ ∃ t₀ past t F, ofBuckets 6 none = .ok t₀ ∧
      Interning t₀ threeFunctions past t F ∧ t.size = 6 ∧ t.buckets.size = 15 ∧ t.resizes = 1 ∧
      10 * t.size < 9 * t.buckets.size ∧ t.buckets.size + 3 = 2 ^ t.resizes * (6 + 3) := by
  have hpos : 0 < 6 := by decide
  have hlimit : (none : Option Nat) ≠ some 0 := by decide
  obtain ⟨t₀, h₀, hstays⟩ := load_stays_below hpos hlimit
  have hrun : (ofBuckets 6 none >>= fun t => t.internAll threeFunctions [] sixChains).map (fun r =>
      (r.2.1.size, r.2.1.buckets.size, r.2.1.resizes)) = .ok (6, 15, 1) := by decide +kernel
  obtain ⟨past, t, F, h, hend⟩ := interning_of_map (f := fun t => (t.size, t.buckets.size, t.resizes)) h₀ hrun
  simp only [Prod.mk.injEq] at hend
  obtain ⟨hsize, hbuckets, hresizes⟩ := hend
  obtain ⟨hload, hcount, -⟩ := hstays _ _ _ _ h
  exact ⟨hpos, hlimit, t₀, past, t, F, h₀, h, hsize, hbuckets, hresizes, hload, hcount⟩

/-- Between eight and nine tenths the table does not grow. -/
theorem more_than_eight_tenths :
    ∃ t₀ past t F, ofBuckets 6 none = .ok t₀ ∧ Interning t₀ threeFunctions past t F ∧ t.size = 5 ∧
      t.buckets.size = 6 ∧ ¬10 * t.size ≤ 8 * t.buckets.size := by
  have hrun : (ofBuckets 6 none >>= fun t => t.internAll threeFunctions [] (sixChains.take 5)).map (fun r =>
      (r.2.1.size, r.2.1.buckets.size)) = .ok (5, 6) := by decide +kernel
  obtain ⟨past, t, F, h, hend⟩ := interning_of_map (f := fun t => (t.size, t.buckets.size)) rfl hrun
  obtain ⟨hsize, hbuckets⟩ := Prod.mk.inj hend
  exact ⟨_, past, t, F, rfl, h, hsize, hbuckets, by rw [hsize, hbuckets]; decide⟩

end CallGraph.ContextTable
