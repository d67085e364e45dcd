/-
  CallGraph.Proofs.Discarding — discarding a block leaves nothing of it behind.

  The anchors a block lists are exactly the live ones of the block, so dropping them one by one leaves
  the anchors of the other blocks, with their keys. Every reference that is kept is to one of those
  (`discardBlock_live`, `discardBlock_inv`).
-/

import CallGraph.Proofs.Invariant

namespace CallGraph

namespace ThreadState

variable {contexts : ContextTable} {anchors anchors' : Directory} {thread : ThreadId} {s : ThreadState}
  {evicted : AnchorId → Bool}

/-- What a thread refers to is still there once its references to evicted anchors are cleared. -/
theorem Sound.forget (h : s.Sound contexts anchors thread)
    (hkept : ∀ a x, anchors.get? a = some x → evicted a = false → ∃ x', anchors'.get? a = some x' ∧ x'.key = x.key) :
    (s.forget evicted).Sound contexts anchors' thread := by
  refine ⟨(h.lineage.forget evicted).mono (fun _ _ hs => hs) ?_, h.unstaged⟩
  intro c a h'
  obtain ⟨⟨x, hx, hc, ht⟩, he⟩ := h'
  obtain ⟨x', hx', hk⟩ := hkept a x hx he
  exact ⟨x', hx', hk ▸ hc, hk ▸ ht⟩

theorem Settled.forget (h : s.Settled anchors thread)
    (hkept : ∀ a x, anchors.get? a = some x → evicted a = false → ∃ x', anchors'.get? a = some x' ∧ x'.key = x.key) :
    (s.forget evicted).Settled anchors' thread := by
  intro a e
  obtain ⟨e, he⟩ := Lineage.keepLive_eq_some.mp e
  obtain ⟨c, hctx, x, hx, hc, ht⟩ := h a e
  obtain ⟨x', hx', hk⟩ := hkept a x hx he
  exact ⟨c, hctx, x', hx', hk ▸ hc, hk ▸ ht⟩

end ThreadState

/-! ## Tables -/

/-- A live block went, with the anchors it lists and every hint to them. -/
structure Cleared (blocks blocks' : BlockTable) (anchors anchors' : Directory) (id : BlockId) (r : Resident) : Prop where
  live : blocks.get? id = some r
  blockSlots : blocks.arena.Sound → blocks'.arena.Sound
  blocksGet : ∀ j, blocks'.get? j = if j = id then none else blocks.get? j
  anchorSlots : anchors.arena.Sound → anchors'.arena.Sound
  indexed : anchors.Indexed → anchors'.Indexed
  anchorsGet : ∀ a, anchors'.get? a = if a ∈ r.anchors then none
    else (anchors.get? a).map fun x => { x with next := x.next.filter fun n => !r.anchors.contains n }

namespace Cleared

variable {limit : Option Nat} {functions : Nat} {blocks blocks' : BlockTable} {anchors anchors' : Directory}
  {id b : BlockId} {r r' : Resident} {a : AnchorId} {x : Anchor}

theorem of_block (c : Cleared blocks blocks' anchors anchors' id r) (h : blocks'.get? b = some r') :
    b ≠ id ∧ blocks.get? b = some r' := by
  rw [c.blocksGet] at h
  split at h
  · cases h
  · rename_i e
    exact ⟨e, h⟩

theorem kept (c : Cleared blocks blocks' anchors anchors' id r) (hx : anchors.get? a = some x)
    (hm : a ∉ r.anchors) : ∃ x', anchors'.get? a = some x' ∧ x'.key = x.key :=
  ⟨{ x with next := x.next.filter fun n => !r.anchors.contains n }, by rw [c.anchorsGet, if_neg hm, hx]; rfl, rfl⟩

/-- An anchor that is left belongs to another block and kept its key. -/
theorem of_anchor (c : Cleared blocks blocks' anchors anchors' id r) (h : Tables limit functions blocks anchors)
    (hx : anchors'.get? a = some x) :
    ∃ x₀, anchors.get? a = some x₀ ∧ x₀.key.block ≠ id ∧ x.key = x₀.key ∧
      x.next = x₀.next.filter fun n => !r.anchors.contains n := by
  rw [c.anchorsGet] at hx
  split at hx
  · cases hx
  · rename_i hm
    obtain ⟨x₀, hx₀, rfl⟩ := Option.map_eq_some_iff.mp hx
    exact ⟨x₀, hx₀, fun e => hm ((h.mem_anchors_iff c.live hx₀).mpr e), rfl, rfl⟩

theorem tables (c : Cleared blocks blocks' anchors anchors' id r) (h : Tables limit functions blocks anchors) :
    Tables limit functions blocks' anchors' where
  limitPos := h.limitPos
  blockSlots := c.blockSlots h.blockSlots
  anchorSlots := c.anchorSlots h.anchorSlots
  indexed := c.indexed h.indexed
  fnKnown := fun b r' hr' => h.fnKnown b r' (c.of_block hr').2
  nodup := fun b r' hr' => h.nodup b r' (c.of_block hr').2
  listed := by
    intro b r' hr' a
    obtain ⟨hne, hr'⟩ := c.of_block hr'
    rw [h.listed b r' hr']
    constructor
    · intro h'
      obtain ⟨x, hx, rfl⟩ := h'
      -- Another block keeps its anchors: what was dropped was of this block.
      obtain ⟨x', hx', hk⟩ := c.kept hx fun hm => hne ((h.mem_anchors_iff c.live hx).mp hm)
      exact ⟨x', hx', by rw [hk]⟩
    · intro h'
      obtain ⟨x', hx', hb⟩ := h'
      obtain ⟨x, hx, -, hk, -⟩ := c.of_anchor h hx'
      exact ⟨x, hx, hk ▸ hb⟩
  recent := fun b r' a hr' ha => h.recent b r' a (c.of_block hr').2 ha
  blockLive := by
    intro a x' hx'
    obtain ⟨x, hx, hne, hk, -⟩ := c.of_anchor h hx'
    obtain ⟨r', hr'⟩ := h.blockLive a x hx
    exact ⟨r', by rw [hk, c.blocksGet, if_neg hne, hr']⟩
  nextLive := by
    intro a x' n hx' hn
    obtain ⟨x, hx, -, -, hnext⟩ := c.of_anchor h hx'
    rw [hnext] at hn
    obtain ⟨hn, he⟩ := Option.filter_eq_some_iff.mp hn
    obtain ⟨y, hy⟩ := h.nextLive a x n hx hn
    obtain ⟨y', hy', -⟩ := c.kept hy (by simpa using he)
    exact ⟨y', hy'⟩

end Cleared

/-! ## Discarding -/

/-- Anchors were dropped, and nothing was counted. -/
structure Ledger.Drops (l l' : Ledger) : Prop where
  switches : ∀ fn, l'.switches fn = l.switches fn
  calls : l'.calls = l.calls
  entries : l'.entries = l.entries

namespace Tracker

variable {t : Tracker} {id : BlockId} {r : Resident}

theorem dropAnchors_spec (ids : List AnchorId) (t : Tracker) :
    ∃ A L, ids.foldl dropAnchor t = { t with anchors := A, ledger := L } ∧
      (t.anchors.arena.Sound → A.arena.Sound) ∧ (t.anchors.Indexed → A.Indexed) ∧
      (∀ a, A.get? a = if a ∈ ids then none else t.anchors.get? a) ∧ t.ledger.Drops L := by
  induction ids generalizing t with
  | nil => exact ⟨t.anchors, t.ledger, rfl, id, id, fun a => by simp, fun _ => rfl, rfl, rfl⟩
  | cons i ids ih =>
    obtain ⟨A, L, hfold, hslots, hindexed, hget, hdrops⟩ := ih (t.dropAnchor i)
    refine ⟨A, L, hfold, fun h => hslots (Directory.removed_sound h i), fun h => hindexed (h.removed i), fun a => ?_,
      hdrops.switches, hdrops.calls, hdrops.entries⟩
    have hdrop : (t.dropAnchor i).anchors.get? a = if a = i then none else t.anchors.get? a :=
      Directory.get?_removed t.anchors i a
    rw [hget, hdrop]
    by_cases e : a = i <;> simp [e]

theorem discardBlock_dead (h : t.blocks.get? id = none) : t.discardBlock id = (false, t) := by
  simp only [discardBlock, BlockTable.remove?_eq_none.mpr h]

theorem discardBlock_live (h : t.blocks.get? id = some r) :
    ∃ A B L, t.discardBlock id = (true, { t with
        blocks := B, anchors := A, threads := t.threads.forget fun a => r.anchors.contains a, ledger := L
        stats := { t.stats with
          discardedBlocks := t.stats.discardedBlocks + 1
          discardedAnchors := t.stats.discardedAnchors + r.anchors.length } }) ∧
      Cleared t.blocks B t.anchors A id r ∧ t.ledger.Drops L := by
  cases hremove : t.blocks.remove? id with
  | none =>
    rw [BlockTable.remove?_eq_none.mp hremove] at h
    cases h
  | some p =>
    obtain ⟨r', B⟩ := p
    obtain ⟨hr, hB⟩ := BlockTable.get?_of_remove? hremove
    rw [h] at hr
    cases hr
    obtain ⟨A, L, hfold, hslots, hindexed, hget, hdrops⟩ := dropAnchors_spec r.anchors { t with blocks := B }
    refine ⟨_, B, L, by simp only [discardBlock, hremove, hfold]; rfl, ?_, hdrops⟩
    refine ⟨h, fun hs => BlockTable.remove?_sound hs hremove, hB, fun hs => Arena.map_sound (hslots hs) _,
      fun hi => (hindexed hi).forgetHints _, fun a => ?_⟩
    rw [Directory.get?_forgetHints, hget]
    by_cases e : a ∈ r.anchors <;> simp [e]

theorem discardBlock_inv (h : t.Inv) (id : BlockId) : (t.discardBlock id).2.Inv := by
  cases hr : t.blocks.get? id with
  | none =>
    rw [discardBlock_dead hr]
    exact h
  | some r =>
    obtain ⟨A, B, L, heq, c, hdrops⟩ := discardBlock_live hr
    rw [heq]
    -- No thread refers to a dropped anchor any more, the one that runs and those that wait alike.
    have hthreads : ∀ u s, (t.threads.forget fun a => r.anchors.contains a).get? u = some s →
        s.Sound t.contexts A u ∧ s.Settled A u := by
      intro u s hs
      rw [Registry.get?_forget] at hs
      obtain ⟨s₀, hs₀, rfl⟩ := Option.map_eq_some_iff.mp hs
      obtain ⟨hsound, hsettled⟩ := h.thread hs₀
      have hkept : ∀ a x, t.anchors.get? a = some x → r.anchors.contains a = false →
          ∃ x', A.get? a = some x' ∧ x'.key = x.key := fun a x hx he => c.kept hx (by simpa using he)
      exact ⟨hsound.forget hkept, hsettled.forget hkept⟩
    have hactive := hthreads _ _ (Registry.get?_current _)
    exact {
      tables := c.tables h.tables
      known := h.known
      apart := Registry.forget_apart h.apart _
      active := hactive.1
      parked := fun u s _ hs => hthreads u s hs
      balance := fun fn => (h.balance fn).trans (Registry.slotsOf_forget ..).symm
      reported := h.reported.congr (fun _ => rfl) hdrops.switches
      settled := hactive.2 }

end Tracker
end CallGraph
