/-
  CallGraph.Proofs.Evicting — a discard takes away the anchors of one block, and nothing else.

  A discard of a block that is not live changes nothing. A discard of a live one takes the block and its
  anchors away, reports each of these once, in the order in which they were billed first, and clears the
  references to them wherever they are held (`Evicts`). Of a thread nothing but references changes
  (`ThreadState.unreferenced`), whatever it has open and whether it runs or is parked.
  - `step_lists`: a block lists its anchors in the order of `billedFirst`.
  - `discard_evicts`: what a discard does in every state that can be reached.
-/

import CallGraph.Proofs.Handles
import CallGraph.Proofs.Upkeep

namespace CallGraph

/-! ## Threads -/

/-- What carries over between blocks, without the anchors it refers to. -/
def Exec.unreferenced (e : Exec) : Exec := { e with anchor := none, costed := none }

/-- All that is known of a thread but the anchors it refers to. -/
def ThreadState.unreferenced (s : ThreadState) : ThreadState :=
  { s with
    exec := s.exec.unreferenced
    handlers := s.handlers.map fun h => { h with interrupted := h.interrupted.unreferenced }
    shadow := { s.shadow with frames := s.shadow.frames.map fun f => { f with costed := none } } }

theorem ThreadState.unreferenced_forget (s : ThreadState) (evicted : AnchorId → Bool) :
    (s.forget evicted).unreferenced = s.unreferenced := by
  simp only [unreferenced, forget, List.map_map]
  rfl

theorem ThreadState.held_forget (s : ThreadState) (evicted : AnchorId → Bool) (p : ThreadPlace) :
    (s.forget evicted).held p = (s.held p).filter fun a => !evicted a := by
  cases p with
  | last | costed => rfl
  | interruptedLast k | interruptedCosted k =>
    simp only [held, forget, ← List.map_reverse, List.getElem?_map]
    cases s.handlers.reverse[k]? <;> rfl
  | frame k =>
    simp only [held, forget, ← List.map_reverse, List.getElem?_map]
    cases s.shadow.frames.reverse[k]? <;> rfl

/-! ## Reports -/

theorem Ledger.notices_foldl_drop (ids : List AnchorId) (l : Ledger) :
    (ids.foldl Ledger.drop l).notices = (ids.map Notice.dropped).reverse ++ l.notices := by
  induction ids generalizing l with
  | nil => rfl
  | cons a ids ih =>
    rw [List.foldl_cons, ih, List.map_cons, List.reverse_cons, List.append_assoc]
    rfl

/-! ## The directory -/

/-- Every key of another block is found as before. -/
theorem Cleared.lookup_eq {limit : Option Nat} {functions : Nat} {blocks blocks' : BlockTable}
    {anchors anchors' : Directory} {id : BlockId} {r : Resident} (c : Cleared blocks blocks' anchors anchors' id r)
    (h : Tables limit functions blocks anchors) (hfiled : anchors.Filed) (hfiled' : anchors'.Filed)
    (key : AnchorKey) :
    anchors'.lookup key = if key.block = id then none else anchors.lookup key := by
  have hholds : ∀ a, anchors'.holds a key = true ↔ key.block ≠ id ∧ anchors.holds a key = true := by
    intro a
    constructor
    · intro ha
      obtain ⟨x', hx', hk'⟩ := Directory.holds_iff.mp ha
      obtain ⟨x, hx, hne, hk, -⟩ := c.of_anchor h hx'
      have hkey : x.key = key := hk.symm.trans hk'
      exact ⟨hkey ▸ hne, Directory.holds_iff.mpr ⟨x, hx, hkey⟩⟩
    · rintro ⟨hne, ha⟩
      obtain ⟨x, hx, rfl⟩ := Directory.holds_iff.mp ha
      obtain ⟨x', hx', hk⟩ := c.kept hx fun hm => hne ((h.mem_anchors_iff c.live hx).mp hm)
      exact Directory.holds_iff.mpr ⟨x', hx', hk⟩
  refine Option.ext fun a => ?_
  rw [hfiled'.lookup_eq_some_iff, hholds]
  split
  · rename_i e
    exact iff_of_false (fun hboth => hboth.1 e) nofun
  · rename_i hne
    rw [hfiled.lookup_eq_some_iff, and_iff_right hne]

namespace Tracker

variable {config : Config} {t t' : Tracker} {id : BlockId} {r : Resident}

theorem ledger_foldl_dropAnchor (ids : List AnchorId) (t : Tracker) :
    (ids.foldl dropAnchor t).ledger = ids.foldl Ledger.drop t.ledger := by
  induction ids generalizing t with
  | nil => rfl
  | cons a ids ih => exact ih (t.dropAnchor a)

theorem ledger_discardBlock (h : t.blocks.get? id = some r) :
    (t.discardBlock id).2.ledger = r.anchors.foldl Ledger.drop t.ledger := by
  cases hremove : t.blocks.remove? id with
  | none =>
    rw [BlockTable.remove?_eq_none.mp hremove] at h
    cases h
  | some p =>
    obtain ⟨r', B⟩ := p
    obtain ⟨hr, -⟩ := BlockTable.get?_of_remove? hremove
    rw [h] at hr
    cases hr
    simp only [discardBlock, hremove]
    exact ledger_foldl_dropAnchor r.anchors { t with blocks := B }

/-! ## One discard -/

/-- A live block went with its anchors and every reference to them. -/
structure Evicts (t : Tracker) (id : BlockId) (r : Resident) (t' : Tracker) : Prop where
  blocks : ∀ j, t'.blocks.get? j = if j = id then none else t.blocks.get? j
  nodup : r.anchors.Nodup
  /-- The anchors that go are those of the block. -/
  owned : ∀ a, a ∈ r.anchors ↔ ∃ x, t.anchors.get? a = some x ∧ x.key.block = id
  /-- The others lose at most their hint. -/
  anchors : ∀ a, t'.anchors.get? a = if a ∈ r.anchors then none
    else (t.anchors.get? a).map fun x => { x with next := x.next.filter fun n => n ∉ r.anchors }
  found : ∀ key, t'.anchors.lookup key = if key.block = id then none else t.anchors.lookup key
  ledger : t'.ledger = r.anchors.foldl Ledger.drop t.ledger
  /-- The latest report is in front. -/
  reports : t'.ledger.notices = (r.anchors.map Notice.dropped).reverse ++ t.ledger.notices
  held : ∀ u p, t'.held (.thread u p) = (t.held (.thread u p)).filter fun a => a ∉ r.anchors
  threads : ∀ u, (t'.threads.get? u).map ThreadState.unreferenced = (t.threads.get? u).map ThreadState.unreferenced
  current : t'.threads.current = t.threads.current
  config : t'.config = t.config
  functions : t'.functions = t.functions
  contexts : t'.contexts = t.contexts
  stats : t'.stats = { t.stats with
    discardedBlocks := t.stats.discardedBlocks + 1
    discardedAnchors := t.stats.discardedAnchors + r.anchors.length }

theorem discardBlock_evicts (h : t.Inv) (o : t.InOrder) (hr : t.blocks.get? id = some r) :
    ∃ t', t.discardBlock id = (true, t') ∧ Evicts t id r t' := by
  obtain ⟨A, B, L, heq, c, -⟩ := discardBlock_live hr
  have hledger := ledger_discardBlock hr
  have hfiled' := (discardBlock_inOrder o id).anchors
  rw [heq] at hledger hfiled'
  have hledger : L = r.anchors.foldl Ledger.drop t.ledger := hledger
  have hkept : (fun a : AnchorId => !r.anchors.contains a) = fun a => decide (a ∉ r.anchors) := by
    funext a
    simp
  refine ⟨_, heq, ?_⟩
  exact {
    blocks := c.blocksGet
    nodup := h.tables.nodup id r hr
    owned := h.tables.listed id r hr
    anchors := by
      intro a
      rw [← hkept]
      exact c.anchorsGet a
    found := c.lookup_eq h.tables o.anchors hfiled'
    ledger := hledger
    reports := by
      show L.notices = _
      rw [hledger, Ledger.notices_foldl_drop]
    held := by
      intro u p
      show ((Registry.forget t.threads _).get? u).bind (·.held p) = ((t.threads.get? u).bind (·.held p)).filter _
      rw [Registry.get?_forget, ← hkept]
      cases t.threads.get? u with
      | none => rfl
      | some s => exact s.held_forget _ p
    threads := by
      intro u
      show ((Registry.forget t.threads _).get? u).map _ = _
      rw [Registry.get?_forget, Option.map_map]
      congr 1
      funext s
      exact s.unreferenced_forget _
    current := rfl
    config := rfl
    functions := rfl
    contexts := rfl
    stats := rfl }

/-! ## The order of a block's anchors -/

/-- The anchors of a block, in the order in which they were billed first since the block was registered. -/
def billedFirst (id : BlockId) (seen : List AnchorId) : Op × Reply → List AnchorId
  | (.registerBlock _, .block b) => if b = id then [] else seen
  | (.enterBlock _ b, .billed a) => if b = id ∧ a ∉ seen then seen ++ [a] else seen
  | _ => seen

/-- As long as a block is live it lists these. -/
def Lists (t : Tracker) (id : BlockId) (seen : List AnchorId) : Prop :=
  ∀ r, t.blocks.get? id = some r → r.anchors = seen

theorem Lists.of_blocks {seen : List AnchorId} (hl : t.Lists id seen) (h : t'.blocks = t.blocks) :
    t'.Lists id seen := by
  intro r hr
  rw [h] at hr
  exact hl r hr

theorem link_blocks {source : Option Departure} {x : Transfer} {a : AnchorId} {skip : Bool}
    (h : t.link source x a skip = .ok t') : t'.blocks = t.blocks := by
  obtain ⟨-, rfl⟩ | ⟨d, A, -, -, h⟩ := link_eq h
  · rfl
  · split at h
    · obtain ⟨s, n, -, hpush⟩ := h
      obtain ⟨arc, addr, F, L, -, rfl, -⟩ := pushFrame_eq hpush
      rfl
    · rw [h]

/-- A block that runs adds its anchor to those it lists, unless it is one of them. -/
theorem enterBlock_lists (h : t.Inv) {pos : Position} {b : BlockId} {a : AnchorId}
    (he : t.enterBlock pos b = .ok (a, t')) {seen : List AnchorId} (hl : t.Lists id seen) :
    t'.Lists id (billedFirst id seen (.enterBlock pos b, .billed a)) := by
  obtain ⟨source, r, x, skip, c, t₁, t₂, t₃, t₄, st, rfl⟩ := enterBlock_stages he
  obtain ⟨hanchors, hblocks⟩ := st.unbilled (h.switchTo pos.thread)
  obtain ⟨-, -, hblocks₀, -, hanchors₀, -⟩ := Stays.switchTo t pos.thread
  have hblocks : t₂.blocks = t.blocks := hblocks.trans hblocks₀
  have hanchors : t₂.anchors = t.anchors := hanchors.trans hanchors₀
  have hb : t.blocks.get? b = some r := hblocks₀ ▸ st.block
  have hseen : b = id → seen = r.anchors := by
    rintro rfl
    exact (hl r hb).symm
  have hlinked : t₄.blocks = t₃.blocks := link_blocks st.linked
  refine Lists.of_blocks (t := t₃) (fun r' hr' => ?_) hlinked
  obtain ⟨S, -, ⟨hholds, rfl⟩ | ⟨A, hspawn, rfl⟩⟩ := billTo_eq (by rw [hblocks]; exact hb) st.billed
  · -- An anchor that was there for the key is one that the block lists.
    obtain ⟨r₀, hr₀, -, hsame, -⟩ := BlockTable.of_setRecent hr'
    rw [hblocks] at hr₀
    rw [hsame, hl r₀ hr₀, billedFirst, if_neg]
    rintro ⟨e, hnew⟩
    rw [hanchors] at hholds
    obtain ⟨y, hy, hk⟩ := Directory.holds_iff.mp hholds
    rw [hseen e] at hnew
    exact hnew ((h.tables.mem_anchors_iff hb hy).mpr (congrArg AnchorKey.block hk))
  · obtain ⟨r₀, hr₀, -, ⟨hne, hsame, -⟩ | ⟨rfl, hadded, -⟩⟩ := BlockTable.of_addAnchor hr'
    · rw [hblocks] at hr₀
      rw [hsame, hl r₀ hr₀, billedFirst, if_neg fun hboth => hne hboth.1.symm]
    · -- The number of a new anchor was free, so no block listed it.
      rw [hblocks] at hr₀
      rw [hanchors] at hspawn
      obtain ⟨-, hfree, -⟩ := Directory.spawn_eq h.tables.anchorSlots hspawn
      have hnew : a ∉ seen := by
        intro hm
        rw [hseen rfl] at hm
        obtain ⟨y, hy, -⟩ := (h.tables.listed _ r hb a).mp hm
        rw [hfree] at hy
        cases hy
      rw [hadded, hl r₀ hr₀, billedFirst, if_pos ⟨rfl, hnew⟩]

theorem registerBlock_lists (h : t.Inv) (block : Block) {seen : List AnchorId} (hl : t.Lists id seen) :
    ({ t with blocks := (t.blocks.insert block).2 } : Tracker).Lists id
      (billedFirst id seen (.registerBlock block, .block (t.blocks.insert block).1)) := by
  intro r hr
  rw [billedFirst]
  rcases write_cases (BlockTable.get?_insert h.tables.blockSlots block) hr with ⟨e, rfl⟩ | ⟨hne, hr⟩
  · rw [if_pos e.symm]
  · rw [if_neg fun e => hne e.symm]
    exact hl r hr

theorem discardBlock_lists {seen : List AnchorId} (hl : t.Lists id seen) (b : BlockId) :
    (t.discardBlock b).2.Lists id seen := by
  cases hr : t.blocks.get? b with
  | none =>
    rw [discardBlock_dead hr]
    exact hl
  | some r =>
    obtain ⟨A, B, L, heq, c, -⟩ := discardBlock_live hr
    rw [heq]
    exact fun r' hr' => hl r' (c.of_block hr').2

theorem step_lists (h : t.Inv) {op : Op} {reply : Reply} (hs : t.step op = .ok (reply, t')) {seen : List AnchorId}
    (hl : t.Lists id seen) : t'.Lists id (billedFirst id seen (op, reply)) := by
  cases step_effect hs with
  | registerFunction | setFunctionSkip | setExitsPassed => exact hl
  | @registerBlock block => exact registerBlock_lists h block hl
  | enterBlock henter => exact enterBlock_lists h henter hl
  | enterHandler henter =>
    obtain ⟨s, rfl⟩ := enterHandler_eq henter
    exact hl.of_blocks (blocks_switchTo t _)
  | exitHandler hexit => exact hl.of_blocks ((exitHandler_unwinds h hexit).blocks.trans (blocks_switchTo t _))
  | discardBlock b => exact discardBlock_lists hl b
  | finish hfinish => exact hl.of_blocks (finish_eq h hfinish).1.blocks

theorem Span.lists {P : Tracker → Prop} {trail : List (Op × Reply)} (hs : Span P t trail t') (h : t.Inv)
    {seen : List AnchorId} (hl : t.Lists id seen) : t'.Lists id (trail.foldl (billedFirst id) seen) := by
  induction hs generalizing seen with
  | here => exact hl
  | step _ hstep _ ih => exact ih (step_inv h hstep).1 (step_lists h hstep hl)

/-! ## Every reachable state -/

/-- A discard is all or nothing. Whatever run led to the state, the anchors go in the order in which they were
billed first. -/
theorem discard_evicts (hreach : Reach config t) (id : BlockId) :
    (t.blocks.get? id = none → t.discardBlock id = (false, t)) ∧
    ∀ r, t.blocks.get? id = some r → ∃ t', t.discardBlock id = (true, t') ∧ Evicts t id r t' ∧
      ∀ t₀ trail, ofConfig config = .ok t₀ → Span (fun _ => True) t₀ trail t →
        r.anchors = trail.foldl (billedFirst id) [] := by
  obtain ⟨h, -⟩ := reach_inv hreach
  refine ⟨discardBlock_dead, fun r hr => ?_⟩
  obtain ⟨t', hdiscard, hevicts⟩ := discardBlock_evicts h (reach_inOrder hreach) hr
  refine ⟨t', hdiscard, hevicts, fun t₀ trail h₀ hs => ?_⟩
  have hnone : t₀.Lists id [] := by
    intro r₀ hr₀
    obtain ⟨-, C, -, A, -, rfl⟩ := ofConfig_eq_ok.mp h₀
    exact absurd hr₀ (by simp [BlockTable.get?, BlockTable.empty, Arena.get?_empty])
  exact hs.lists (ofConfig_inv h₀).1 hnone r hr

/-- Both anchors of `work` go, that of the handler and that of the code it interrupted. -/
theorem discard_evicts_signalledRun :
    ∃ t r t', Reach fewBuckets t ∧ t.blocks.get? ⟨1⟩ = some r ∧ r.anchors = [⟨1⟩, ⟨2⟩] ∧
      t.held (.thread ⟨1⟩ (.interruptedLast 0)) = some ⟨1⟩ ∧ t.discardBlock ⟨1⟩ = (true, t') ∧ Evicts t ⟨1⟩ r t' ∧
      t'.held (.thread ⟨1⟩ (.interruptedLast 0)) = none ∧
      t'.ledger.notices = .dropped ⟨2⟩ :: .dropped ⟨1⟩ :: t.ledger.notices := by
  have hrun : (runFrom fewBuckets signalledRun).map (fun t =>
      ((t.blocks.get? ⟨1⟩).map (·.anchors), t.held (.thread ⟨1⟩ (.interruptedLast 0)))) =
      .ok (some [⟨1⟩, ⟨2⟩], some ⟨1⟩) := by decide +kernel
  obtain ⟨t, h, hrun⟩ := runFrom_of_map hrun
  obtain ⟨hlisted, hheld⟩ := Prod.mk.inj hrun
  obtain ⟨r, hr, hanchors⟩ := Option.map_eq_some_iff.mp hlisted
  obtain ⟨t', hdiscard, hevicts, -⟩ := (discard_evicts (reach_runFrom h) ⟨1⟩).2 r hr
  refine ⟨t, r, t', reach_runFrom h, hr, hanchors, hheld, hdiscard, hevicts, ?_, ?_⟩
  · rw [hevicts.held, hheld, hanchors]
    rfl
  · rw [hevicts.reports, hanchors]
    rfl

end Tracker
end CallGraph
