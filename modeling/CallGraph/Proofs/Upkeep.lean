/-
  CallGraph.Proofs.Upkeep — tables and accounts are in order in every state.

  An anchor that is removed leaves its bucket, and no other anchor is filed anew, so nothing gets lost in
  the hash tables when blocks are dropped, and the size of the directory is the number of live anchors. The
  ledger keeps a count for every open arc, and calls are balanced against returns and open frames. All of
  this (`InOrder`) goes on through every operation (`step_inOrder`), so it holds in every state that can be
  reached (`reach_inOrder`).
  - `Directory.Filed.lookup_eq_some_iff`: a look-up finds the live anchor of a key.
-/

import Mathlib.Data.Finset.Card
import CallGraph.Proofs.Accounts

namespace CallGraph

/-! ## Looking up and removing anchors -/

namespace Directory

variable {d d' : Directory} {key : AnchorKey} {a : AnchorId} {y : Anchor}

theorem Filed.lookup_eq_some_iff (h : d.Filed) : d.lookup key = some a ↔ d.holds a key = true := by
  rw [lookup_eq_some]
  constructor
  · intro hl
    exact holds_iff.mpr (find_holds hl)
  · intro ha
    obtain ⟨y, hy, hk⟩ := holds_iff.mp ha
    obtain ⟨_ | b, hl⟩ := h.indexed.find_ok key
    · exact absurd hk (h.of_find_eq_none hl hy)
    · obtain ⟨z, hz, hk'⟩ := find_holds hl
      rw [hl, h.distinct b a z y hz hy (hk'.trans hk.symm)]

theorem mem_modify_erase (buckets : Array (List AnchorId)) (i j : Nat) {a b : AnchorId} (hne : b ≠ a)
    (h : b ∈ buckets.getD j []) : b ∈ (buckets.modify i (·.erase a)).getD j [] := by
  simp only [Array.getD_eq_getD_getElem?, Array.getElem?_modify] at h ⊢
  by_cases e : i = j
  · subst e
    cases hb : buckets[i]? with
    | none => simp [hb] at h
    | some bucket =>
      simp only [hb, Option.getD_some] at h
      simpa using (List.mem_erase_of_ne hne).mpr h
  · simpa [e] using h

/-- What a removal takes away: the anchor, and its number from its bucket. -/
theorem remove_spec (h : d.remove? a = some (y, d')) :
    d.get? a = some y ∧ (∀ b, d'.get? b = if b = a then none else d.get? b) ∧
      d'.buckets = d.buckets.modify (bucketOf y.key d.buckets.size) (·.erase a) := by
  have hget := get?_removed d a
  rw [h] at hget
  obtain ⟨⟨y', arena⟩, hremove, e⟩ := Option.map_eq_some_iff.mp h
  obtain ⟨hy, -⟩ := Arena.get?_of_remove? hremove
  cases e
  exact ⟨hy, hget, rfl⟩

theorem Filed.removed (h : d.Filed) (a : AnchorId) : ((d.remove? a).elim d (·.2)).Filed := by
  have hindexed := h.indexed.removed a
  cases hr : d.remove? a with
  | none => exact h
  | some p =>
    rw [hr] at hindexed
    obtain ⟨-, hget, hbuckets⟩ := remove_spec hr
    have hof : ∀ b y, p.2.get? b = some y → b ≠ a ∧ d.get? b = some y := by
      intro b y hy
      rw [hget] at hy
      split at hy
      · cases hy
      · rename_i e
        exact ⟨e, hy⟩
    refine h.fewer hindexed ?_ (fun b y hy => ⟨y, (hof b y hy).2, rfl⟩) fun b y j hy hm => ?_
    · rw [Option.elim_some, hbuckets]
      exact Array.size_modify
    · rw [Option.elim_some, hbuckets]
      exact mem_modify_erase d.buckets _ j (hof b y hy).1 hm

theorem Filed.forgetHints (h : d.Filed) (evicted : AnchorId → Bool) : (d.forgetHints evicted).Filed := by
  refine h.fewer (h.indexed.forgetHints evicted) rfl (fun b y hy => ?_) fun _ _ _ _ hm => hm
  rw [get?_forgetHints] at hy
  obtain ⟨y₀, hy₀, rfl⟩ := Option.map_eq_some_iff.mp hy
  exact ⟨y₀, hy₀, rfl⟩

end Directory

/-! ## Counting -/

namespace Arena

variable {α : Type} {a a' : Arena α} {i : Nat} {x : α}

/-- The numbers of the live items. -/
def ids (a : Arena α) : Finset Nat := (Finset.range a.slots.size).filter fun i => a.contains i = true

theorem mem_ids : i ∈ a.ids ↔ ∃ x, a.get? i = some x := by
  rw [ids, Finset.mem_filter, Finset.mem_range, contains, Option.isSome_iff_exists]
  refine and_iff_right_of_imp ?_
  rintro ⟨x, hx⟩
  exact (Array.getElem?_eq_some_iff.mp (get?_eq_some.mp hx)).1

/-- As many items are counted as are live. -/
def Counted (a : Arena α) : Prop := a.live = a.ids.card

theorem empty_counted : (empty : Arena α).Counted := rfl

theorem Counted.insert (h : a.Counted) (hs : a.Sound) (x : α) : (a.insert x).2.Counted := by
  have hids : (a.insert x).2.ids = Insert.insert (a.insert x).1 a.ids := by
    ext i
    rw [Finset.mem_insert, mem_ids, mem_ids, get?_insert hs]
    by_cases e : i = (a.insert x).1 <;> simp [e]
  have hnot : (a.insert x).1 ∉ a.ids := by
    rw [mem_ids, get?_insert_new hs]
    rintro ⟨y, hy⟩
    cases hy
  rw [Counted, live_insert, hids, Finset.card_insert_of_notMem hnot, h]

theorem Counted.remove (h : a.Counted) (hr : a.remove? i = some (x, a')) : a'.Counted := by
  obtain ⟨hx, hget⟩ := get?_of_remove? hr
  have hids : a'.ids = a.ids.erase i := by
    ext j
    rw [Finset.mem_erase, mem_ids, mem_ids, hget]
    by_cases e : j = i <;> simp [e]
  obtain ⟨-, -, -, hlive⟩ := remove?_parts hr
  rw [Counted, hlive, hids, Finset.card_erase_of_mem (mem_ids.mpr ⟨x, hx⟩), h]

theorem Counted.of_same (h : a.Counted) (hlive : a'.live = a.live)
    (hget : ∀ i, (∃ x, a'.get? i = some x) ↔ ∃ x, a.get? i = some x) : a'.Counted := by
  have hids : a'.ids = a.ids := by
    ext i
    rw [mem_ids, mem_ids, hget]
  rw [Counted, hlive, hids]
  exact h

theorem Counted.modify (h : a.Counted) (i : Nat) (f : α → α) : (a.modify i f).Counted := by
  refine h.of_same rfl fun j => ?_
  rw [get?_modify]
  split
  · rename_i e
    rw [e]
    cases a.get? i <;> simp
  · rfl

theorem Counted.map (h : a.Counted) (f : α → α) : (a.map f).Counted := by
  refine h.of_same rfl fun j => ?_
  rw [get?_map]
  cases a.get? j <;> simp

end Arena

namespace Directory

variable {d d' : Directory} {key : AnchorKey} {a : AnchorId} {y : Anchor}

/-- The numbers of the live anchors. -/
def ids (d : Directory) : Finset Nat := (Finset.range d.arena.slots.size).filter fun i => d.arena.contains i = true

theorem mem_ids {i : Nat} : i ∈ d.ids ↔ ∃ y, d.get? ⟨i⟩ = some y := Arena.mem_ids

/-- The size is the number of live anchors. -/
def Counted (d : Directory) : Prop := d.size = d.ids.card

theorem counted_iff : d.Counted ↔ d.arena.Counted := Iff.rfl

theorem ofBuckets_counted {n : Nat} (h : ofBuckets n = .ok d) : d.Counted := by
  obtain ⟨-, rfl⟩ := ofBuckets_eq_ok.mp h
  exact Arena.empty_counted

theorem Counted.spawn (h : d.Counted) (hslots : d.arena.Sound) (hs : d.spawn key = .ok (a, d')) : d'.Counted := by
  have harena : d'.arena = (d.arena.insert { key }).2 := by
    obtain ⟨-, -, d₁, harena, -, rfl | rfl⟩ := spawn_parts hs
    · exact harena
    · exact harena
  rw [counted_iff, harena]
  exact Arena.Counted.insert h hslots _

theorem Counted.setNext (h : d.Counted) {next : AnchorId} (hs : d.setNext a next = .ok d') : d'.Counted := by
  obtain ⟨-, -, hs⟩ := bind_eq_ok.mp hs
  cases hs
  exact Arena.Counted.modify h _ _

theorem Counted.removed (h : d.Counted) (a : AnchorId) : ((d.remove? a).elim d (·.2)).Counted := by
  unfold remove?
  cases hr : d.arena.remove? a.num with
  | none => exact h
  | some p => exact Arena.Counted.remove h hr

theorem Counted.forgetHints (h : d.Counted) (evicted : AnchorId → Bool) : (d.forgetHints evicted).Counted :=
  Arena.Counted.map h _

end Directory

/-- What a discard takes from the directory is what the block lists. -/
theorem Cleared.size_add {limit : Option Nat} {functions : Nat} {blocks blocks' : BlockTable}
    {anchors anchors' : Directory} {id : BlockId} {r : Resident} (c : Cleared blocks blocks' anchors anchors' id r)
    (h : Tables limit functions blocks anchors) (hcounted : anchors.Counted) (hcounted' : anchors'.Counted) :
    anchors'.size + r.anchors.length = anchors.size := by
  have hinj : Function.Injective AnchorId.num := fun a b e => congrArg AnchorId.mk e
  have hlist : (r.anchors.map AnchorId.num).Nodup := (h.nodup id r c.live).map hinj
  have hmem : ∀ i, i ∈ (r.anchors.map AnchorId.num).toFinset ↔ (⟨i⟩ : AnchorId) ∈ r.anchors := by
    intro i
    rw [List.mem_toFinset, List.mem_map]
    exact ⟨fun ⟨a, ha, e⟩ => e ▸ ha, fun ha => ⟨_, ha, rfl⟩⟩
  have hsub : (r.anchors.map AnchorId.num).toFinset ⊆ anchors.ids := by
    intro i hi
    obtain ⟨y, hy, -⟩ := (h.listed id r c.live _).mp ((hmem i).mp hi)
    exact Directory.mem_ids.mpr ⟨y, hy⟩
  have hids : anchors'.ids = anchors.ids \ (r.anchors.map AnchorId.num).toFinset := by
    ext i
    rw [Finset.mem_sdiff, Directory.mem_ids, Directory.mem_ids, hmem, c.anchorsGet]
    by_cases hi : (⟨i⟩ : AnchorId) ∈ r.anchors
    · simp [hi]
    · cases anchors.get? ⟨i⟩ <;> simp [hi]
  have hlength : (r.anchors.map AnchorId.num).toFinset.card = r.anchors.length := by
    rw [List.toFinset_card_of_nodup hlist, List.length_map]
  rw [hcounted', hcounted, hids, ← hlength]
  exact Finset.card_sdiff_add_card_eq_card hsub

/-! ## The ledger -/

namespace Ledger

variable {l : Ledger}

theorem Numbered.drop (h : l.Numbered) (a : AnchorId) : (l.drop a).Numbered :=
  fun p hp => h p (List.mem_of_mem_filter hp)

end Ledger

/-- Forgetting anchors takes no frame off. -/
theorem Registry.depths_forget (r : Registry) (evicted : AnchorId → Bool) : (r.forget evicted).depths = r.depths := by
  have hparked : (r.parked.map (·.forget evicted)).weigh (fun s => s.shadow.depth) =
      r.parked.weigh fun s => s.shadow.depth := SortedMap.weigh_map _ _ _ _ fun _ => List.length_map _
  have hactive : (r.active.forget evicted).shadow.depth = r.active.shadow.depth := List.length_map _
  simp only [depths, weigh, forget, hparked, hactive]

/-! ## Every operation -/

namespace Tracker

variable {t t' : Tracker} {u : ThreadId} {config : Config}

/-- Nothing is lost in the tables or miscounted, every open arc has a count, and every call returned or has a
frame. -/
structure InOrder (t : Tracker) : Prop where
  contexts : t.contexts.Filed
  anchors : t.anchors.Filed
  counted : t.anchors.Counted
  numbered : t.ledger.Numbered
  balanced : t.Balanced

theorem InOrder.switchTo (o : t.InOrder) (h : t.Inv) (u : ThreadId) : (t.switchTo u).InOrder := by
  obtain ⟨-, -, -, hcontexts, hanchors, hledger⟩ := Stays.switchTo t u
  refine ⟨?_, ?_, ?_, ?_, o.balanced.switchTo h u⟩
  · rw [hcontexts]
    exact o.contexts
  · rw [hanchors]
    exact o.anchors
  · rw [hanchors]
    exact o.counted
  · rw [hledger]
    exact o.numbered

theorem Unwinds.inOrder (w : Unwinds t t') (o : t.InOrder) : t'.InOrder := by
  refine ⟨?_, ?_, ?_, w.ledger.numbered o.numbered, w.balanced o.balanced⟩
  · rw [w.contexts]
    exact o.contexts
  · rw [w.anchors]
    exact o.anchors
  · rw [w.anchors]
    exact o.counted

theorem Ends.inOrder (e : Ends t t') (o : t.InOrder) : t'.InOrder := by
  obtain ⟨n, hstats, hdepths⟩ := e.returns
  refine ⟨?_, ?_, ?_, e.ledger.numbered o.numbered, ?_⟩
  · rw [e.contexts]
    exact o.contexts
  · rw [e.anchors]
    exact o.anchors
  · rw [e.anchors]
    exact o.counted
  · have hb := o.balanced
    rw [Balanced] at hb ⊢
    rw [hstats]
    show t.stats.calls = t.stats.returns + n + t'.threads.depths
    omega

theorem Entered.numbered {key : AnchorKey} {sc : Scene ContextId Kept AnchorId} {x : Transfer} {skip : Bool}
    {a : AnchorId} (e : Entered t key sc x skip a t') (h : t.ledger.Numbered) : t'.ledger.Numbered := by
  have hledger := e.ledger
  split at hledger
  · obtain ⟨s, n, -, hsame⟩ := hledger
    exact hsame.numbered (Ledger.call_calls h _).numbered
  · exact hledger.numbered h

theorem Entered.counted {key : AnchorKey} {sc : Scene ContextId Kept AnchorId} {x : Transfer} {skip : Bool}
    {a : AnchorId} (e : Entered t key sc x skip a t') (hslots : t.anchors.arena.Sound) (h : t.anchors.Counted) :
    t'.anchors.Counted := by
  obtain ⟨A, hfound, hnext⟩ := e.anchors
  have hA : A.Counted := by
    obtain ⟨-, rfl⟩ | hspawn := hfound
    · exact h
    · exact h.spawn hslots hspawn
  obtain ⟨-, hsame⟩ | ⟨l, -, hset⟩ := hnext
  · rw [hsame]
    exact hA
  · exact hA.setNext hset

theorem enterBlock_inOrder (h : t.Inv) (o : t.InOrder) {pos : Position} {id : BlockId} {a : AnchorId}
    (he : t.enterBlock pos id = .ok (a, t')) : t'.InOrder := by
  obtain ⟨_, r, _, _, _, _, _, _, _, st, -⟩ := enterBlock_stages he
  have hb : t.blocks.block? id = some r.block := by
    have hr := st.block
    rw [(Stays.switchTo t pos.thread).2.2.1] at hr
    rw [BlockTable.block?, hr]
    rfl
  obtain ⟨f, hf⟩ := known_decl h hb
  obtain ⟨sc, hs⟩ := (h.state pos.thread).1.story
  obtain ⟨c, -, e⟩ := enterBlock_entered h he hs hb hf o.contexts
  have hslots := h.tables.anchorSlots
  exact ⟨e.contexts.1, (e.anchors_filed hslots o.anchors).1, e.counted hslots o.counted,
    e.numbered o.numbered, e.balanced o.balanced⟩

theorem enterHandler_inOrder (h : t.Inv) (o : t.InOrder) {signal : Int} (he : t.enterHandler u signal = .ok t') :
    t'.InOrder := by
  have o₀ := o.switchTo h u
  unfold enterHandler at he
  split at he
  · cases he
  · cases he
    exact ⟨o₀.contexts, o₀.anchors, o₀.counted, o₀.numbered, o₀.balanced⟩

theorem exitHandler_inOrder (h : t.Inv) (o : t.InOrder) {signal : Int} (he : t.exitHandler u signal = .ok t') :
    t'.InOrder := by
  obtain ⟨sc, hs⟩ := (h.state u).1.story
  exact (exitHandler_tells he hs).2.1.inOrder (o.switchTo h u)

theorem dropAnchors_inOrder (ids : List AnchorId) (o : t.InOrder) : (ids.foldl dropAnchor t).InOrder := by
  induction ids generalizing t with
  | nil => exact o
  | cons a ids ih => exact ih ⟨o.contexts, o.anchors.removed a, o.counted.removed a, o.numbered.drop a, o.balanced⟩

theorem discardBlock_inOrder (o : t.InOrder) (id : BlockId) : (t.discardBlock id).2.InOrder := by
  unfold discardBlock
  split
  · exact o
  · rename_i r blocks _
    have o' : InOrder (r.anchors.foldl dropAnchor { t with blocks }) :=
      dropAnchors_inOrder r.anchors ⟨o.contexts, o.anchors, o.counted, o.numbered, o.balanced⟩
    refine ⟨o'.contexts, o'.anchors.forgetHints _, o'.counted.forgetHints _, o'.numbered, ?_⟩
    show _ = _ + (Registry.forget _ _).depths
    rw [Registry.depths_forget]
    exact o'.balanced

theorem step_inOrder (h : t.Inv) (o : t.InOrder) {op : Op} {reply : Reply} (hs : t.step op = .ok (reply, t')) :
    t'.InOrder := by
  cases step_effect hs with
  | registerFunction | setFunctionSkip | registerBlock | setExitsPassed =>
    exact ⟨o.contexts, o.anchors, o.counted, o.numbered, o.balanced⟩
  | enterBlock henter => exact enterBlock_inOrder h o henter
  | enterHandler henter => exact enterHandler_inOrder h o henter
  | exitHandler hexit => exact exitHandler_inOrder h o hexit
  | discardBlock id => exact discardBlock_inOrder o id
  | finish hfinish => exact (finish_eq h hfinish).1.inOrder o

theorem ofConfig_inOrder (h : ofConfig config = .ok t) : t.InOrder := by
  obtain ⟨-, C, hC, A, hA, rfl⟩ := ofConfig_eq_ok.mp h
  exact ⟨(ContextTable.ofBuckets_filed hC).1, (Directory.ofBuckets_filed hA).1, Directory.ofBuckets_counted hA,
    Ledger.empty_numbered, rfl⟩

theorem reach_inOrder (h : Reach config t) : t.InOrder := by
  induction h with
  | init h => exact ofConfig_inOrder h
  | step hreach hs ih => exact step_inOrder (reach_inv hreach).1 ih hs

end Tracker
end CallGraph
