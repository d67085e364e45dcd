/-
  CallGraph.Proofs.Billing — the anchor of a key is found or made.

  Noting an anchor at its block, making one for a key and noting which one followed keep the tables
  in order, and everything that was live keeps its key. So billing succeeds for every live block,
  and the anchor it answers is the one of the key, whatever the hints say (`Tracker.billTo_ok`).
-/

import CallGraph.Proofs.Invariant

namespace CallGraph

/-! ## Noting anchors at blocks -/

namespace BlockTable

variable {t : BlockTable} {b j : BlockId} {a : AnchorId} {r : Resident}

theorem of_setRecent (h : (t.setRecent b a).get? j = some r) :
    ∃ r₀, t.get? j = some r₀ ∧ r.block = r₀.block ∧ r.anchors = r₀.anchors ∧
      (r.recent = r₀.recent ∨ j = b ∧ r.recent = some a) := by
  rw [get?_setRecent] at h
  split at h
  · rename_i e
    obtain ⟨r₀, hr₀, rfl⟩ := Option.map_eq_some_iff.mp h
    exact ⟨r₀, e ▸ hr₀, rfl, rfl, .inr ⟨e, rfl⟩⟩
  · exact ⟨r, h, rfl, rfl, .inl rfl⟩

theorem keeps_setRecent (t : BlockTable) (b : BlockId) (a : AnchorId) : t.Keeps (t.setRecent b a) := by
  intro j r hr
  rw [get?_setRecent]
  split
  · rename_i e
    subst e
    exact ⟨{ r with recent := some a }, by rw [hr]; rfl, rfl⟩
  · exact ⟨r, hr, rfl⟩

theorem of_addAnchor (h : (t.addAnchor b a).get? j = some r) :
    ∃ r₀, t.get? j = some r₀ ∧ r.block = r₀.block ∧
      (j ≠ b ∧ r.anchors = r₀.anchors ∧ r.recent = r₀.recent ∨
        j = b ∧ r.anchors = r₀.anchors ++ [a] ∧ r.recent = some a) := by
  rw [get?_addAnchor] at h
  split at h
  · rename_i e
    obtain ⟨r₀, hr₀, rfl⟩ := Option.map_eq_some_iff.mp h
    exact ⟨r₀, e ▸ hr₀, rfl, .inr ⟨e, rfl, rfl⟩⟩
  · rename_i e
    exact ⟨r, h, rfl, .inl ⟨e, rfl, rfl⟩⟩

theorem keeps_addAnchor (t : BlockTable) (b : BlockId) (a : AnchorId) : t.Keeps (t.addAnchor b a) := by
  intro j r hr
  rw [get?_addAnchor]
  split
  · rename_i e
    subst e
    exact ⟨{ r with anchors := r.anchors ++ [a], recent := some a }, by rw [hr]; rfl, rfl⟩
  · exact ⟨r, hr, rfl⟩

end BlockTable

/-! ## The tables stay in order -/

namespace Tables

variable {limit : Option Nat} {functions : Nat} {blocks : BlockTable} {anchors anchors' : Directory}

theorem setRecent (h : Tables limit functions blocks anchors) {a : AnchorId} {x : Anchor}
    (ha : anchors.get? a = some x) : Tables limit functions (blocks.setRecent x.key.block a) anchors where
  limitPos := h.limitPos
  blockSlots := Arena.modify_sound h.blockSlots _ _
  anchorSlots := h.anchorSlots
  indexed := h.indexed
  fnKnown := by
    intro b r hr
    obtain ⟨r₀, hr₀, hblock, -⟩ := BlockTable.of_setRecent hr
    rw [hblock]
    exact h.fnKnown b r₀ hr₀
  nodup := by
    intro b r hr
    obtain ⟨r₀, hr₀, -, hanchors, -⟩ := BlockTable.of_setRecent hr
    rw [hanchors]
    exact h.nodup b r₀ hr₀
  listed := by
    intro b r hr
    obtain ⟨r₀, hr₀, -, hanchors, -⟩ := BlockTable.of_setRecent hr
    rw [hanchors]
    exact h.listed b r₀ hr₀
  recent := by
    intro b r a' hr ha'
    obtain ⟨r₀, hr₀, -, hanchors, hrecent⟩ := BlockTable.of_setRecent hr
    rw [hanchors]
    rcases hrecent with hrecent | ⟨e, hrecent⟩
    · exact h.recent b r₀ a' hr₀ (hrecent ▸ ha')
    · rw [hrecent] at ha'
      cases ha'
      exact (h.mem_anchors_iff hr₀ ha).mpr e.symm
  blockLive := by
    intro a' x' ha'
    obtain ⟨r, hr⟩ := h.blockLive a' x' ha'
    obtain ⟨r', hr', -⟩ := blocks.keeps_setRecent x.key.block a _ r hr
    exact ⟨r', hr'⟩
  nextLive := h.nextLive

/-- What making the anchor of a key does to the directory. -/
theorem spawn (h : Tables limit functions blocks anchors) {key : AnchorKey} {id : AnchorId} {r : Resident}
    (hr : blocks.get? key.block = some r) (hnew : anchors.get? id = none) (hslots : anchors'.arena.Sound)
    (hindexed : anchors'.Indexed)
    (hget : ∀ j, anchors'.get? j = if j = id then some { key } else anchors.get? j) :
    Tables limit functions (blocks.addAnchor key.block id) anchors' := by
  refine ⟨h.limitPos, Arena.modify_sound h.blockSlots _ _, hslots, hindexed, ?fnKnown, ?nodup, ?listed, ?recent, ?blockLive,
    ?nextLive⟩
  case fnKnown =>
    intro b r hr
    obtain ⟨r₀, hr₀, hblock, -⟩ := BlockTable.of_addAnchor hr
    rw [hblock]
    exact h.fnKnown b r₀ hr₀
  case nodup =>
    intro b r hr
    obtain ⟨r₀, hr₀, -, ⟨-, hanchors, -⟩ | ⟨-, hanchors, -⟩⟩ := BlockTable.of_addAnchor hr
    · rw [hanchors]
      exact h.nodup b r₀ hr₀
    · rw [hanchors, List.nodup_append]
      refine ⟨h.nodup b r₀ hr₀, by simp, fun a ha a' ha' => ?_⟩
      obtain ⟨x, hx, -⟩ := (h.listed b r₀ hr₀ a).mp ha
      rw [List.mem_singleton.mp ha']
      exact (write_keeps hget hnew hx).1
  case listed =>
    intro b r hr a
    -- Only the block of the key lists the new anchor.
    obtain ⟨r₀, hr₀, -, ⟨e, hanchors, -⟩ | ⟨e, hanchors, -⟩⟩ := BlockTable.of_addAnchor hr
    · rw [hanchors, h.listed b r₀ hr₀, exists_write_iff hget hnew, or_iff_right fun h' => e h'.2.symm]
    · rw [hanchors, List.mem_append, List.mem_singleton, h.listed b r₀ hr₀, exists_write_iff hget hnew,
        and_iff_left e.symm, or_comm]
  case recent =>
    intro b r a hr ha
    obtain ⟨r₀, hr₀, -, ⟨-, hanchors, hrecent⟩ | ⟨-, hanchors, hrecent⟩⟩ := BlockTable.of_addAnchor hr
    · rw [hanchors]
      exact h.recent b r₀ a hr₀ (hrecent ▸ ha)
    · rw [hrecent] at ha
      cases ha
      rw [hanchors]
      exact List.mem_append_right _ (List.mem_singleton.mpr rfl)
  case blockLive =>
    intro a x ha
    have : ∃ r, blocks.get? x.key.block = some r := by
      rcases write_cases hget ha with ⟨-, rfl⟩ | ⟨-, ha⟩
      · exact ⟨r, hr⟩
      · exact h.blockLive a x ha
    obtain ⟨r, hr⟩ := this
    obtain ⟨r', hr', -⟩ := blocks.keeps_addAnchor key.block id _ r hr
    exact ⟨r', hr'⟩
  case nextLive =>
    intro a x n ha hn
    rcases write_cases hget ha with ⟨-, rfl⟩ | ⟨-, ha⟩
    · cases hn
    · obtain ⟨y, hy⟩ := h.nextLive a x n ha hn
      exact ⟨y, (write_keeps hget hnew hy).2⟩

/-- A live anchor can be noted as the follower of a live one. -/
theorem setNext_ok (h : Tables limit functions blocks anchors) {id next : AnchorId} {x y : Anchor}
    (hx : anchors.get? id = some x) (hy : anchors.get? next = some y) :
    ∃ anchors', anchors.setNext id next = .ok anchors' ∧ Tables limit functions blocks anchors' ∧
      anchors.Keeps anchors' := by
  obtain ⟨anchors', hset, hslots, hget⟩ := Directory.setNext_ok hx next
  have hkeeps : anchors.Keeps anchors' := by
    intro j z hz
    rw [hget]
    split
    · rename_i e
      subst e
      rw [hx] at hz
      cases hz
      exact ⟨_, rfl, rfl⟩
    · exact ⟨z, hz, rfl⟩
  have hof : ∀ {j z}, anchors'.get? j = some z →
      ∃ z₀, anchors.get? j = some z₀ ∧ z.key = z₀.key ∧ (z.next = z₀.next ∨ z.next = some next) := by
    intro j z hz
    rcases write_cases hget hz with ⟨e, rfl⟩ | ⟨-, hz⟩
    · exact ⟨x, e ▸ hx, rfl, .inr rfl⟩
    · exact ⟨z, hz, rfl, .inl rfl⟩
  refine ⟨anchors', hset, ?_, hkeeps⟩
  refine { h with
    anchorSlots := hslots h.anchorSlots, indexed := h.indexed.setNext hset, listed := ?listed
    blockLive := ?blockLive, nextLive := ?nextLive }
  case listed =>
    intro b r hr a
    -- Keys stay what they are, so each block lists what it listed.
    rw [h.listed b r hr]
    constructor
    · intro h'
      obtain ⟨z, hz, hb⟩ := h'
      obtain ⟨z', hz', hk⟩ := hkeeps a z hz
      exact ⟨z', hz', hk ▸ hb⟩
    · intro h'
      obtain ⟨z, hz, hb⟩ := h'
      obtain ⟨z₀, hz₀, hk, -⟩ := hof hz
      exact ⟨z₀, hz₀, hk ▸ hb⟩
  case blockLive =>
    intro a z hz
    obtain ⟨z₀, hz₀, hk, -⟩ := hof hz
    rw [hk]
    exact h.blockLive a z₀ hz₀
  case nextLive =>
    intro a z n hz hn
    obtain ⟨z₀, hz₀, -, hnext⟩ := hof hz
    have : ∃ y, anchors.get? n = some y := by
      rcases hnext with hnext | hnext
      · exact h.nextLive a z₀ n hz₀ (hnext ▸ hn)
      · rw [hnext] at hn
        cases hn
        exact ⟨y, hy⟩
    obtain ⟨y, hy⟩ := this
    obtain ⟨y', hy', -⟩ := hkeeps n y hy
    exact ⟨y', hy'⟩

end Tables

/-! ## Billing -/

namespace Tracker

variable {t : Tracker} {limit : Option Nat} {functions : Nat} {key : AnchorKey} {r : Resident}

theorem spawnAnchor_ok (h : Tables limit functions t.blocks t.anchors) (hr : t.blocks.get? key.block = some r)
    (hk : t.anchors.find key = .ok none) :
    ∃ a A B, t.spawnAnchor key = .ok (a, { t with anchors := A, blocks := B }) ∧
      Tables limit functions B A ∧ t.anchors.Keeps A ∧ t.blocks.Keeps B ∧ ∃ x, A.get? a = some x ∧ x.key = key := by
  obtain ⟨id, A, hspawn, hslots, hnew, hget⟩ := Directory.spawn_ok h.anchorSlots hk
  refine ⟨id, A, _, by simp only [spawnAnchor, hspawn, ok_bind]; rfl,
    h.spawn hr hnew hslots (h.indexed.spawn hspawn) hget, ?_,
    BlockTable.keeps_addAnchor _ _ _, { key }, by rw [hget, if_pos rfl], rfl⟩
  exact fun a x ha => ⟨x, (write_keeps hget hnew ha).2, rfl⟩

/-- Billing to a live block answers the anchor of the key. -/
theorem billTo_ok (h : Tables limit functions t.blocks t.anchors) (key : AnchorKey)
    (hr : t.blocks.get? key.block = some r) {last : Option AnchorId}
    (hlast : ∀ a, last = some a → ∃ x, t.anchors.get? a = some x) :
    ∃ a A B S, t.billTo key last = .ok (a, { t with anchors := A, blocks := B, stats := S }) ∧
      Tables limit functions B A ∧ t.anchors.Keeps A ∧ t.blocks.Keeps B ∧ ∃ x, A.get? a = some x ∧ x.key = key := by
  -- An anchor that is found is only noted at the block.
  have found : ∀ {a}, (∃ x, t.anchors.get? a = some x ∧ x.key = key) →
      Tables limit functions (t.blocks.setRecent key.block a) t.anchors ∧ t.anchors.Keeps t.anchors ∧
        t.blocks.Keeps (t.blocks.setRecent key.block a) ∧ ∃ x, t.anchors.get? a = some x ∧ x.key = key := by
    intro a h'
    obtain ⟨x, hx, rfl⟩ := h'
    exact ⟨h.setRecent hx, .refl _, BlockTable.keeps_setRecent _ _ _, x, hx, rfl⟩
  have hhint : ∃ hint, t.hintAfter last = .ok hint := by
    cases hl : last with
    | none => exact ⟨none, rfl⟩
    | some a =>
      obtain ⟨x, hx⟩ := hlast a hl
      exact ⟨x.next, by simp only [hintAfter, Directory.get_eq_ok hx, ok_bind, pure_eq_ok]⟩
  unfold billTo
  simp only [BlockTable.get_eq_ok hr, ok_bind]
  split
  · rename_i hempty
    have hk : t.anchors.find key = .ok none := by
      obtain ⟨_ | a, hk⟩ := h.indexed.find_ok key
      · exact hk
      · obtain ⟨x, hx, rfl⟩ := Directory.find_holds hk
        have hm := (h.mem_anchors_iff hr hx).mpr rfl
        rw [List.isEmpty_iff.mp hempty] at hm
        cases hm
    obtain ⟨a, A, B, hspawn, hspec⟩ := spawnAnchor_ok h hr hk
    exact ⟨a, A, B, t.stats, hspawn, hspec⟩
  · obtain ⟨hint, hhint⟩ := hhint
    simp only [hhint, ok_bind]
    split
    · rename_i a ha
      obtain ⟨-, ha⟩ := Option.filter_eq_some_iff.mp ha
      exact ⟨a, _, _, _, rfl, found (Directory.holds_iff.mp ha)⟩
    · split
      · rename_i a ha
        obtain ⟨-, ha⟩ := Option.filter_eq_some_iff.mp ha
        exact ⟨a, _, _, _, rfl, found (Directory.holds_iff.mp ha)⟩
      · obtain ⟨o, hk⟩ := h.indexed.find_ok key
        simp only [hk, ok_bind]
        cases o with
        | some a => exact ⟨a, _, _, _, rfl, found (Directory.find_holds hk)⟩
        | none =>
          have spawned := fun S : Stats => spawnAnchor_ok (t := { t with stats := S }) h hr hk
          obtain ⟨a, A, B, hspawn, hspec⟩ := spawned { t.stats with
            directoryProbes := t.stats.directoryProbes + 1, anchorClones := t.stats.anchorClones + 1 }
          exact ⟨a, A, B, _, hspawn, hspec⟩

end Tracker
end CallGraph
