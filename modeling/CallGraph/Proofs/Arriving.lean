/-
  CallGraph.Proofs.Arriving — the thread a block ran on, told by its story.

  Where a block was entered, the running thread is told by `Scene.enter` of the story it had before
  (`enterBlock_tells`), whatever numbers the contexts, anchors and arcs got. Every other thread is as
  before, functions and blocks are what they were registered as, and contexts and anchors that were
  there are still the same (`enterBlock_arrives`).
-/

import CallGraph.Proofs.Scenes
import CallGraph.Proofs.Stages

namespace CallGraph

/-- The block, among what is kept of it in the table. -/
def BlockTable.block? (t : BlockTable) (b : BlockId) : Option Block := (t.get? b).map (·.block)

theorem BlockTable.block?_setRecent (t : BlockTable) (b : BlockId) (a : AnchorId) (j : BlockId) :
    (t.setRecent b a).block? j = t.block? j := by
  simp only [block?, get?_setRecent]
  split
  · rename_i e
    rw [e, Option.map_map]
    rfl
  · rfl

theorem BlockTable.block?_addAnchor (t : BlockTable) (b : BlockId) (a : AnchorId) (j : BlockId) :
    (t.addAnchor b a).block? j = t.block? j := by
  simp only [block?, get?_addAnchor]
  split
  · rename_i e
    rw [e, Option.map_map]
    rfl
  · rfl

theorem FnStack.top?_eq_some {s : FnStack} {fn : FnId} (h : s.top? = some fn) : ∃ rest, s.slots = some fn :: rest := by
  obtain ⟨slots⟩ := s
  cases slots with
  | nil => cases h
  | cons slot rest =>
    have h : slot = some fn := h
    exact ⟨rest, by rw [h]⟩

namespace Tracker

variable {t t' : Tracker}

/-! ## Threads -/

/-- What is known of a thread; one that was not seen is fresh. -/
def state (t : Tracker) (u : ThreadId) : ThreadState := (t.threads.get? u).getD .fresh

theorem state_current (t : Tracker) : t.state t.threads.current = t.thread := by
  rw [state, Registry.get?_current]
  rfl

theorem state_of_parked (hc : t'.threads.current = t.threads.current) (hp : t'.threads.parked = t.threads.parked)
    {u : ThreadId} (hu : u ≠ t.threads.current) : t'.state u = t.state u := by
  rw [state, state, get?_of_parked hc hp hu]

theorem state_of_fresh (h : t.threads = {}) (u : ThreadId) : t.state u = .fresh := by
  rw [state, h]
  unfold Registry.get?
  split <;> rfl

theorem state_of_forget {dead : AnchorId → Bool} (h : t'.threads = t.threads.forget dead) (u : ThreadId) :
    t'.state u = (t.state u).forget dead := by
  rw [state, state, h, Registry.get?_forget]
  cases t.threads.get? u <;> rfl

theorem state_switchTo (t : Tracker) (u v : ThreadId) : (t.switchTo u).state v = t.state v := by
  unfold switchTo
  split
  · rfl
  · simp only [state, Registry.get?_switchTo]
    split
    · rename_i e
      rw [e]
      rfl
    · rfl

theorem Inv.state (h : t.Inv) (u : ThreadId) :
    (t.state u).Sound t.contexts t.anchors u ∧ (t.state u).Settled t.anchors u := by
  cases hu : t.threads.get? u with
  | none =>
    rw [Tracker.state, hu]
    exact ⟨ThreadState.fresh_sound, ThreadState.fresh_settled⟩
  | some s =>
    rw [Tracker.state, hu]
    exact h.thread hu

/-- How many slots of the other threads hold a function. -/
def slotsBeside (t : Tracker) (u : ThreadId) (fn : FnId) : Nat :=
  (t.threads.all.erase u.num).weigh fun s => s.fns.slots.count (some fn)

theorem activeCount_eq (h : t.Inv) (u : ThreadId) (fn : FnId) :
    t.functions.activeCount fn = (t.state u).fns.slots.count (some fn) + t.slotsBeside u fn := by
  have hall : t.threads.all.weigh (fun s => s.fns.slots.count (some fn)) = t.threads.slotsOf fn :=
    SortedMap.weigh_insert h.apart _ _
  have herase := SortedMap.weigh_erase t.threads.all (fun s => s.fns.slots.count (some fn)) u.num
  have hown : (((t.threads.get? u).map fun s => s.fns.slots.count (some fn)).getD 0) =
      (t.state u).fns.slots.count (some fn) := by
    rw [state]
    cases t.threads.get? u <;> rfl
  rw [Registry.get?_all, hown] at herase
  rw [h.balance, ← hall, ← herase, slotsBeside, Nat.add_comm]

/-- Every function on a thread's stack is registered. -/
theorem Inv.slots_registered (h : t.Inv) {u : ThreadId} {fn : FnId} (hm : some fn ∈ (t.state u).fns.slots) :
    fn.num < t.functions.size := by
  have hpos : 0 < t.functions.activeCount fn := by
    have hcount := List.count_pos_iff.mpr hm
    rw [activeCount_eq h u fn]
    omega
  unfold FunctionTable.activeCount at hpos
  by_contra hn
  rw [Array.getElem?_eq_none (Nat.not_lt.mp hn)] at hpos
  exact absurd hpos (Nat.lt_irrefl 0)

theorem blockOf_eq (t : Tracker) (a : AnchorId) :
    t.blockOf a = (t.anchors.get? a).bind fun y => t.blocks.block? y.key.block := rfl

/-! ## The context of the block -/

/-- The context that is active now stands for the function stack. -/
theorem Interns.stands {fn : FnId} (i : Interns t t' fn) (h : t.Sound) :
    ∃ c, t'.thread.exec.context = some c ∧ Stands t'.contexts c t'.thread.fns.slots ∧
      t'.thread.fns.top? = some fn := by
  have hslots : t'.thread.fns.slots =
      if t.thread.fns.top? = some fn then t.thread.fns.slots else some fn :: t.thread.fns.slots := by rw [i.thread]
  have hcontexts := i.contexts
  by_cases htop : t.thread.fns.top? = some fn
  · rw [if_pos htop] at hslots hcontexts
    -- The function is on top already, so the context is the one that was active.
    have hl := h.active.lineage
    cases hctx : t.thread.exec.context with
    | none =>
      rw [hctx] at hl
      have hnone : t.thread.fns.top? = none := hl.bottom_of_no_context.2.2
      rw [hnone] at htop
      cases htop
    | some c =>
      rw [hctx] at hl
      obtain ⟨g, rest, -, hs⟩ := hl.top_of_context
      refine ⟨c, hcontexts.2.trans hctx, ?_, ?_⟩
      · rw [hcontexts.1, hslots]
        exact hs
      · rw [FnStack.top?, hslots]
        exact htop
  · rw [if_neg htop] at hslots hcontexts
    -- The function was pushed, and the context was interned for the stack with it.
    obtain ⟨F, hintern, -⟩ := hcontexts
    obtain ⟨c, hc, hs⟩ := (ContextTable.interned hintern).stands h.tables.limitPos
    refine ⟨c, hc, ?_, ?_⟩
    · rw [hslots]
      exact hs
    · rw [FnStack.top?, hslots]
      rfl

/-! ## What stays -/

end Tracker

theorem Directory.spawn_eq {d d' : Directory} (hd : d.arena.Sound) {key : AnchorKey} {a : AnchorId}
    (h : d.spawn key = .ok (a, d')) :
    d.find key = .ok none ∧ d.get? a = none ∧ d'.arena.Sound ∧
      ∀ j, d'.get? j = if j = a then some { key } else d.get? j := by
  obtain ⟨hfind, -⟩ := Directory.spawn_parts h
  obtain ⟨a', d'', hspawn, hslots, hnew, hget⟩ := Directory.spawn_ok hd hfind
  rw [h] at hspawn
  cases hspawn
  exact ⟨hfind, hnew, hslots, hget⟩

theorem Directory.setNext_eq {d d' : Directory} {a next : AnchorId} (h : d.setNext a next = .ok d') :
    ∃ y, d.get? a = some y ∧ ∀ j, d'.get? j = if j = a then some { y with next := some next } else d.get? j := by
  obtain ⟨y, hy, -⟩ := bind_eq_ok.mp h
  have hy := Directory.get_eq_ok_iff.mp hy
  obtain ⟨d'', hset, -, hget⟩ := Directory.setNext_ok hy next
  rw [h] at hset
  cases hset
  exact ⟨y, hy, hget⟩

theorem Directory.keeps_setNext {d d' : Directory} {a next : AnchorId} (h : d.setNext a next = .ok d') : d.Keeps d' := by
  obtain ⟨y, hy, hget⟩ := Directory.setNext_eq h
  intro b x hx
  rw [hget]
  split
  · rename_i e
    rw [e, hy] at hx
    cases hx
    exact ⟨_, rfl, rfl⟩
  · exact ⟨x, hx, rfl⟩

namespace Tracker

variable {t t' t'' : Tracker}

theorem billTo_keeps (hslots : t.anchors.arena.Sound) {key : AnchorKey} {last : Option AnchorId} {a : AnchorId}
    {r : Resident} (hr : t.blocks.get? key.block = some r) (h : t.billTo key last = .ok (a, t')) :
    ∃ A B S, t' = { t with anchors := A, blocks := B, stats := S } ∧ t.anchors.Keeps A ∧
      (∀ b, B.block? b = t.blocks.block? b) ∧ ∃ y, A.get? a = some y ∧ y.key = key := by
  obtain ⟨S, -, ⟨hholds, rfl⟩ | ⟨A, hspawn, rfl⟩⟩ := billTo_eq hr h
  · exact ⟨_, _, _, rfl, .refl _, BlockTable.block?_setRecent _ _ _, Directory.holds_iff.mp hholds⟩
  · obtain ⟨-, hnew, -, hget⟩ := Directory.spawn_eq hslots hspawn
    have hkeeps : t.anchors.Keeps A := fun b x hx => ⟨x, (write_keeps hget hnew hx).2, rfl⟩
    exact ⟨_, _, _, rfl, hkeeps, BlockTable.block?_addAnchor _ _ _, { key }, by rw [hget, if_pos rfl], rfl⟩

/-- Where a transfer enters no function, only the hint of the last anchor changes. -/
theorem link_stays {source : Option Departure} {x : Transfer} {a : AnchorId} {skip : Bool}
    (h : t.link source x a skip = .ok t') (hx : x.enters = false) :
    ∃ A, t' = { t with anchors := A } ∧ t.anchors.Keeps A := by
  obtain ⟨-, rfl⟩ | ⟨d, A, -, hset, h⟩ := link_eq h
  · exact ⟨_, rfl, .refl _⟩
  · rw [hx, if_neg Bool.false_ne_true] at h
    exact ⟨A, h, Directory.keeps_setNext hset⟩

/-- Where a transfer enters a function, a frame is pushed for the call. -/
theorem link_enters {d : Departure} {x : Transfer} {a : AnchorId} {skip : Bool}
    (h : t.link (some d) x a skip = .ok t') (hx : x.enters = true) :
    ∃ A s n, t.anchors.setNext d.anchor a = .ok A ∧ callSource { t with anchors := A } d = .ok (s, n) ∧
      pushFrame { t with anchors := A } s n a x.sp skip = .ok t' := by
  obtain ⟨e, -⟩ | ⟨d', A, e, hset, h⟩ := link_eq h
  · cases e
  · cases e
    rw [if_pos hx] at h
    obtain ⟨s, n, hsource, hpush⟩ := h
    exact ⟨A, s, n, hset, hsource, hpush⟩

/-! ## What stays -/

/-- Functions and blocks are what they were registered as, contexts and anchors that were there are still
the same, and no other thread was touched. -/
structure Stays (t t' : Tracker) : Prop where
  config : t'.config = t.config
  size : t'.functions.size = t.functions.size
  decls : ∀ fn, t'.functions.decl? fn = t.functions.decl? fn
  blocks : ∀ b, t'.blocks.block? b = t.blocks.block? b
  contexts : t.contexts.Extends t'.contexts
  anchors : t.anchors.Keeps t'.anchors
  current : t'.threads.current = t.threads.current
  parked : t'.threads.parked = t.threads.parked

theorem Stays.trans (s : Stays t t') (s' : Stays t' t'') : Stays t t'' where
  config := s'.config.trans s.config
  size := s'.size.trans s.size
  decls := fun fn => (s'.decls fn).trans (s.decls fn)
  blocks := fun b => (s'.blocks b).trans (s.blocks b)
  contexts := s.contexts.trans s'.contexts
  anchors := s.anchors.trans s'.anchors
  current := s'.current.trans s.current
  parked := s'.parked.trans s.parked

theorem Unwinds.stays (u : Unwinds t t') : Stays t t' :=
  ⟨u.config, u.functions.size, u.decls, fun _ => by rw [u.blocks], u.contexts ▸ .refl _, u.anchors ▸ .refl _, u.current,
    u.parked⟩

theorem Interns.stays {fn : FnId} (i : Interns t t' fn) : Stays t t' :=
  ⟨i.config, i.size, i.decls, fun _ => by rw [i.blocks], i.extends, i.anchors ▸ .refl _, i.current, i.parked⟩

/-- An anchor that is there keeps its block. -/
theorem Stays.blockOf (s : Stays t t') {a : AnchorId} {b : Block} (h : t.blockOf a = some b) : t'.blockOf a = some b := by
  rw [blockOf_eq] at h ⊢
  obtain ⟨y, hy, hb⟩ := Option.bind_eq_some_iff.mp h
  obtain ⟨y', hy', hk⟩ := s.anchors a y hy
  rw [hy', Option.bind_some, hk, s.blocks, hb]

theorem Inv.blockOf_of_denotes (h : t.Inv) {u : ThreadId} {c : ContextId} {a : AnchorId}
    (ha : Denotes t.anchors u c a) : ∃ b, t.blockOf a = some b := by
  obtain ⟨y, hy, -⟩ := ha
  obtain ⟨r, hr⟩ := h.tables.blockLive a y hy
  exact ⟨r.block, by simp only [Tracker.blockOf, hy, Option.bind_some, hr, Option.map_some]⟩

theorem Stays.refl (t : Tracker) : Stays t t := (Unwinds.refl t).stays

theorem prepare_stays {x : Transfer} {fn : FnId} {skip : Bool} (h : t.prepare x fn = .ok (skip, t')) :
    Stays t t' ∧ t'.anchors = t.anchors ∧ t'.blocks = t.blocks := by
  obtain ⟨-, -, h⟩ := prepare_eq h
  split at h
  · exact ⟨h.stays, h.anchors, h.blocks⟩
  · rw [h]
    exact ⟨.refl t, rfl, rfl⟩

theorem link_keeps {source : Option Departure} {x : Transfer} {a : AnchorId} {skip : Bool}
    (h : t.link source x a skip = .ok t') :
    Stays t t' ∧ t'.thread.exec.context = t.thread.exec.context ∧ t'.contexts = t.contexts := by
  cases hx : x.enters with
  | false =>
    obtain ⟨A, rfl, hA⟩ := link_stays h hx
    exact ⟨⟨rfl, rfl, fun _ => rfl, fun _ => rfl, .refl _, hA, rfl, rfl⟩, rfl, rfl⟩
  | true =>
    cases source with
    | none =>
      cases h
      exact ⟨.refl _, rfl, rfl⟩
    | some d =>
      obtain ⟨A, s, n, hset, -, hpush⟩ := link_enters h hx
      obtain ⟨arc, addr, F, L, -, rfl, hsize, hdecls, -⟩ := pushFrame_eq hpush
      exact ⟨⟨rfl, hsize, hdecls, fun _ => rfl, .refl _, Directory.keeps_setNext hset, rfl, rfl⟩, rfl, rfl⟩

variable {pos : Position} {id : BlockId} {source : Option Departure} {r : Resident} {x : Transfer} {skip : Bool}
  {c : ContextId} {a : AnchorId} {t₁ t₂ t₃ t₄ : Tracker}

/-- The calls that the transfer ends are left first. -/
theorem Stages.left (st : Stages t pos id source r x skip c a t₁ t₂ t₃ t₄) {sc : Scene ContextId Kept AnchorId}
    (hs : t.thread.Tells sc) : t₁.thread.Tells (sc.popCalls x.pops) ∧ Unwinds (t.countTransfer x) t₁ := by
  refine popCalls_tells x.pops (t := t.countTransfer x) hs ?_ st.pops
  rw [← Story.length_frames, ← hs.frames, ← st.transfer]
  exact Transfer.pops_le

/-- Until the block is billed the tables of anchors and blocks are as they were. -/
theorem Stages.unbilled (st : Stages t pos id source r x skip c a t₁ t₂ t₃ t₄) (h : t.Inv) :
    t₂.anchors = t.anchors ∧ t₂.blocks = t.blocks := by
  obtain ⟨sc, hs⟩ := h.active.story
  obtain ⟨-, u⟩ := st.left hs
  obtain ⟨-, hanchors, hblocks⟩ := prepare_stays st.prepared
  exact ⟨hanchors.trans u.anchors, hblocks.trans u.blocks⟩

theorem Stages.bill (st : Stages t pos id source r x skip c a t₁ t₂ t₃ t₄) (h : t.Inv) :
    ∃ A B S, t₃ = { t₂ with anchors := A, blocks := B, stats := S } ∧ t₂.anchors.Keeps A ∧
      (∀ b, B.block? b = t₂.blocks.block? b) ∧
      ∃ y, A.get? a = some y ∧ y.key = { block := id, context := c, thread := pos.thread } := by
  obtain ⟨hanchors, hblocks⟩ := st.unbilled h
  exact billTo_keeps (by rw [hanchors]; exact h.tables.anchorSlots) (by rw [hblocks]; exact st.block) st.billed

/-- A context that was not there is that of the block. -/
theorem Stages.new (st : Stages t pos id source r x skip c a t₁ t₂ t₃ t₄) (h : t.Inv) {i : ContextId} {y : Context}
    (hy : (t₄.settle a).contexts.get? i = some y) : t.contexts.get? i = some y ∨ i = c := by
  obtain ⟨sc, hs⟩ := h.active.story
  obtain ⟨-, u⟩ := st.left hs
  obtain ⟨-, -, hprepare⟩ := prepare_eq st.prepared
  obtain ⟨A, B, S, rfl, -⟩ := st.bill h
  have hy : t₂.contexts.get? i = some y := by
    rw [← (link_keeps st.linked).2.2]
    exact hy
  rw [← show t₁.contexts = t.contexts from u.contexts]
  split at hprepare
  · refine (hprepare.new hy).imp_right fun e => ?_
    rw [st.context] at e
    cases e
    rfl
  · rw [hprepare] at hy
    exact .inl hy

theorem Stages.stays (st : Stages t pos id source r x skip c a t₁ t₂ t₃ t₄) (h : t.Inv) :
    Stays t (t₄.settle a) ∧ (t₄.settle a).thread.exec.context = some c ∧
      ∃ y, (t₄.settle a).anchors.get? a = some y ∧ y.key = { block := id, context := c, thread := pos.thread } := by
  obtain ⟨sc, hs⟩ := h.active.story
  obtain ⟨-, u⟩ := st.left hs
  have hcount : Stays t (t.countTransfer x) :=
    ⟨rfl, rfl, fun _ => rfl, fun _ => rfl, .refl _, .refl _, rfl, rfl⟩
  obtain ⟨hprepare, -⟩ := prepare_stays st.prepared
  obtain ⟨A, B, S, rfl, hA, hB, y, hy, hk⟩ := st.bill h
  have hbill : Stays t₂ { t₂ with anchors := A, blocks := B, stats := S } :=
    ⟨rfl, rfl, fun _ => rfl, hB, .refl _, hA, rfl, rfl⟩
  obtain ⟨hlink, hctx, -⟩ := link_keeps st.linked
  obtain ⟨y', hy', hk'⟩ := hlink.anchors a y hy
  have hsettle : Stays t₄ (t₄.settle a) := ⟨rfl, rfl, fun _ => rfl, fun _ => rfl, .refl _, .refl _, rfl, rfl⟩
  exact ⟨hcount.trans (u.stays.trans (hprepare.trans (hbill.trans (hlink.trans hsettle)))), hctx.trans st.context, y', hy',
    hk'.trans hk⟩

/-! ## The story -/

/-- The story tells where control comes from. -/
theorem departure_of {sc : Scene ContextId Kept AnchorId} (hd : t.departure = .ok source) (hs : t.thread.Tells sc) :
    (sc.last = none ∧ source = none) ∨
      ∃ l b, sc.last = some l ∧ t.blockOf l = some b ∧ source = some
        { anchor := l, block := b, exit := (b.exitAfter sc.passed).1, kind := (b.exitAfter sc.passed).2.kind } := by
  have hlast : t.thread.exec.anchor = sc.last := by rw [hs.exec]
  have hpassed : t.thread.exec.exitsPassed = sc.passed := by rw [hs.exec]
  obtain ⟨hnone, e⟩ | ⟨l, b, hl, hb, e⟩ := departure_eq hd
  · exact .inl ⟨hlast.symm.trans hnone, e⟩
  · rw [hpassed] at e
    exact .inr ⟨l, b, hlast.symm.trans hl, hb, e⟩

theorem departure_tells {sc : Scene ContextId Kept AnchorId} (hd : t.departure = .ok source) (hs : t.thread.Tells sc) :
    (sc.departure t.blockOf).map (fun d => (d.block, d.kind)) = source.map fun d => (d.block, d.kind) := by
  obtain ⟨hl, rfl⟩ | ⟨l, b, hl, hb, rfl⟩ := departure_of hd hs
  · simp only [Scene.departure, hl]
    rfl
  · simp only [Scene.departure, hl, Option.bind_some, hb, Option.map_some]

/-- The story tells what the transfer is. -/
theorem Stages.transfer_eq (st : Stages t pos id source r x skip c a t₁ t₂ t₃ t₄)
    {sc : Scene ContextId Kept AnchorId} (hs : t.thread.Tells sc) :
    sc.transfer t.blockOf t.config.tailCalls r.block pos.sp = x := by
  have hmarks : sc.story.marks.map Frame.mark = t.thread.shadow.frames.map Frame.mark := by
    rw [hs.frames]
    exact sc.story.marks_eq
  have hbottom : t.thread.bottom = sc.story.bottom := by
    rw [← Story.bottomOf_handlers, ← hs.handlers]
    unfold ThreadState.bottom bottomOf
    cases t.thread.handlers <;> rfl
  rw [← st.transfer, hbottom]
  exact Transfer.classify_congr (departure_tells st.departure hs) (Transfer.levels_congr hmarks) _ _ _ _
    fun _ _ _ => Transfer.returnDepth_congr hmarks ..

section
variable {s : Story ContextId Kept AnchorId} {last : Option AnchorId} {passed : Nat} {th : ThreadState} {fn : FnId}
  {sp addr : Addr}

/-- The first function of a thread or handler. -/
theorem tells_first (hs : th.Tells ⟨s, last, passed⟩) (hstarted : s.started = false) (fn : FnId) (c : ContextId)
    (staged : Staged) (hstaged : staged.context = none) :
    ThreadState.Tells { th with
        shadow := { th.shadow with staged }, fns := ⟨some fn :: th.fns.slots⟩
        exec := { th.exec with context := some c } }
      ⟨.first fn c s, last, passed⟩ := by
  have hcosted := (Story.of_not_started hstarted).2.2.2
  refine ⟨hs.frames, hstaged, congrArg (some fn :: ·) hs.slots, ?_, hs.handlers, hstarted, hs.wellFormed⟩
  show { th.exec with context := some c } = _
  rw [hs.exec, hcosted]
  rfl

/-- A call into a skipped function. -/
theorem tells_skipped (hs : th.Tells ⟨s, last, passed⟩) (hstarted : s.started = true) (fn : FnId) (c : ContextId)
    (sp addr : Addr) (costed : Option AnchorId) :
    ThreadState.Tells { th with
        shadow := th.shadow.push none sp addr th.exec.costed, exec := { th.exec with costed } }
      ⟨.call { fn, skipped := true, sp, returnTo := addr, costed } c ⟨⟨0⟩, th.shadow.staged⟩ s, last, passed⟩ := by
  refine ⟨?_, rfl, ?_, ?_, hs.handlers, hstarted, hs.wellFormed⟩
  · show _ :: th.shadow.frames = _
    rw [hs.frames, hs.exec]
    rfl
  · rw [hs.slots]
    simp only [Story.slots, true_or, if_true]
  · show { th.exec with costed } = _
    rw [hs.exec]
    rfl

/-- Any other call, from the innermost function; `th'` is the state once its context is active. -/
theorem tells_called {th' : ThreadState} (hs : th.Tells ⟨s, last, passed⟩) (hstarted : s.started = true) {arc : CallArc}
    {c : ContextId} (sp addr : Addr) (hcaller : th.fns.top? = some arc.caller)
    (hth : th' = { th with
      shadow := { th.shadow with staged := { context := th.exec.context, fnDepth := th.fns.slots.length } }
      fns := ⟨if th.fns.top? = some arc.callee then th.fns.slots else some arc.callee :: th.fns.slots⟩
      exec := { th.exec with context := some c } }) :
    ThreadState.Tells { th' with
        shadow := th'.shadow.push (some arc) sp addr th'.exec.costed, exec := { th'.exec with costed := none } }
      ⟨.call { fn := arc.callee, skipped := false, sp, returnTo := addr, costed := none } c ⟨arc.id, {}⟩ s, last,
        passed⟩ := by
  subst hth
  have htop : s.slots.head?.join = some arc.caller := by
    rw [← hcaller, FnStack.top?, hs.slots]
  refine ⟨?_, rfl, ?_, ?_, hs.handlers, hstarted, hs.wellFormed⟩
  · show _ :: th.shadow.frames = _
    rw [hs.frames, hs.exec, hs.slots]
    simp only [Story.frames, Bool.false_eq_true, if_false, htop, Option.getD_some]
  · rw [FnStack.top?, hs.slots]
    simp only [Story.slots, Bool.false_eq_true, false_or, Option.join_eq_some_iff]
  · show { th.exec with context := some c, costed := none } = _
    rw [hs.exec]
    rfl

/-- The block's anchor is the last one now. -/
theorem tells_settled (hs : th.Tells ⟨s, last, passed⟩) (a : AnchorId) :
    ThreadState.Tells { th with exec := { th.exec with anchor := some a, exitsPassed := 0 } } ⟨s, some a, 0⟩ := by
  refine ⟨hs.frames, hs.unstaged, hs.slots, ?_, hs.handlers, hs.wellFormed⟩
  show { th.exec with anchor := some a, exitsPassed := 0 } = _
  rw [hs.exec]

end

/-- A transfer that enters no function leaves calls and handlers, and where nothing ran since, the first
function starts. -/
theorem Stages.tells_stays (st : Stages t pos id source r x skip c a t₁ t₂ t₃ t₄) (h : t.Inv)
    {sc : Scene ContextId Kept AnchorId} (hs : t.thread.Tells sc) (hx : x.enters = false) :
    (t₄.settle a).thread.Tells
      ⟨if (sc.popCalls x.pops).story.started then (sc.popCalls x.pops).story
        else .first r.block.fn c (sc.popCalls x.pops).story, some a, 0⟩ := by
  obtain ⟨hs₁, u⟩ := st.left hs
  obtain ⟨A, B, S, rfl, -⟩ := st.bill h
  obtain ⟨A', rfl, -⟩ := link_stays st.linked hx
  obtain ⟨-, -, hprepare⟩ := prepare_eq st.prepared
  rw [hx, Bool.false_and, Bool.false_or] at hprepare
  have hsome := hs₁.isSome_context
  cases hstarted : (sc.popCalls x.pops).story.started with
  | true =>
    rw [hstarted] at hsome
    rw [← Option.not_isSome, hsome, Bool.not_true, if_neg Bool.false_ne_true] at hprepare
    subst hprepare
    rw [if_pos rfl]
    exact tells_settled hs₁ a
  | false =>
    rw [hstarted] at hsome
    rw [← Option.not_isSome, hsome, Bool.not_false, if_pos rfl] at hprepare
    rw [if_neg Bool.false_ne_true]
    -- Nothing ran since the innermost handler began: its first function goes on an empty stack.
    have htop : t₁.thread.fns.top? ≠ some r.block.fn := by
      rw [FnStack.top?, hs₁.slots, (Story.of_not_started hstarted).1]
      exact (Option.some_ne_none _).symm
    have hnone : t₁.thread.exec.context = none := Option.not_isSome_iff_eq_none.mp (by rw [hsome]; exact Bool.false_ne_true)
    have hthread := hprepare.thread
    rw [if_neg htop, st.context, hnone] at hthread
    have hfirst := tells_first hs₁ hstarted r.block.fn c { context := none, fnDepth := t₁.thread.fns.slots.length } rfl
    rw [← hthread] at hfirst
    exact tells_settled hfirst a

/-- A function that an anchor's context has on top. -/
theorem functionOf_top {u : ThreadId} {fn g : FnId} {slots : List (Option FnId)} (h : t.functionOf a = .ok fn)
    (ha : Denotes t.anchors u c a) (hs : Stands t.contexts c (some g :: slots)) : fn = g := by
  have := functionOf_ok ha hs
  rw [h] at this
  exact Except.ok.inj this

/-- Where a call comes from, and where it returns to. -/
theorem Stages.source_eq (st : Stages t pos id source r x skip c a t₁ t₂ t₃ t₄) (h : t.Inv)
    {sc : Scene ContextId Kept AnchorId} (hs : t.thread.Tells sc) {d : Departure} (hd : source = some d)
    (hstays : Stays t t') (hcosted : t'.thread.exec.costed = t.thread.exec.costed) {s : AnchorId} {n : Nat} {addr : Addr}
    (hsource : t'.callSource d = .ok (s, n)) (haddr : t'.returnAddressOf s n = .ok addr) :
    sc.callSource t.blockOf = some (s, n) ∧ sc.returnTo t.blockOf = addr ∧
      (∃ c₀, t.thread.exec.context = some c₀ ∧ Denotes t.anchors t.threads.current c₀ s) ∧
      sc.story.costed.or sc.last = sc.story.costed.or (some s) := by
  obtain ⟨-, e⟩ | ⟨l, b, hl, hb, e⟩ := departure_of st.departure hs
  · rw [hd] at e
    cases e
  · rw [hd] at e
    cases e
    have hcostedS : t.thread.exec.costed = sc.story.costed := by rw [hs.exec]
    have hlast : t.thread.exec.anchor = some l := by
      rw [hs.exec]
      exact hl
    obtain ⟨c₀, hctx, hdenotes⟩ := h.settled l hlast
    obtain ⟨b', o, hb', ho, rfl⟩ := returnAddressOf_eq haddr
    obtain ⟨hnone, rfl, rfl⟩ | ⟨b'', hsome, hb'', rfl⟩ := callSource_eq hsource
    · rw [hcosted, hcostedS] at hnone
      -- Outside of skipped functions the call comes from where the block that ran last was left.
      have hbb : b' = b := Option.some.inj (hb'.symm.trans (hstays.blockOf hb))
      have hcall : sc.callSource t.blockOf = some (s, (b.exitAfter sc.passed).1) := by
        simp only [Scene.callSource, hnone, hl, Option.bind_some, hb, Option.map_some]
      refine ⟨hcall, ?_, ⟨c₀, hctx, hdenotes⟩, by rw [hnone, hl]⟩
      rw [Scene.returnTo, hcall, Option.bind_some]
      simp only [hb, Option.map_some, Option.getD_some]
      exact Block.returnTo_eq (hbb ▸ ho)
    · rw [hcosted, hcostedS] at hsome
      -- In a skipped function it comes from the anchor that called into it, at the last exit of its block.
      have hdenotes' := h.toSound.costed hctx (hcostedS.trans hsome)
      obtain ⟨b₀, hb₀⟩ := h.blockOf_of_denotes hdenotes'
      have hb₁ := hstays.blockOf hb₀
      have hbb : b' = b₀ := Option.some.inj (hb'.symm.trans hb₁)
      have hbb' : b'' = b₀ := Option.some.inj (hb''.symm.trans hb₁)
      subst hbb hbb'
      have hcall : sc.callSource t.blockOf = some (s, b''.finalIndex) := by
        simp only [Scene.callSource, hsome, hb₀, Option.map_some]
      refine ⟨hcall, ?_, ⟨c₀, hctx, hdenotes'⟩, by rw [hsome]; rfl⟩
      rw [Scene.returnTo, hcall, Option.bind_some]
      simp only [hb₀, Option.map_some, Option.getD_some]
      exact Block.returnTo_eq ho

/-- A transfer that enters a function leaves no call, and pushes a frame with what the story says. -/
theorem Stages.pushes (st : Stages t pos id source r x skip c a t₁ t₂ t₃ t₄) (h : t.Inv)
    {sc : Scene ContextId Kept AnchorId} (hs : t.thread.Tells sc) (hx : x.enters = true) :
    t₁ = t.countTransfer x ∧ ∃ d A s n arc F L, source = some d ∧ t₃.anchors.setNext d.anchor a = .ok A ∧
      t₄ = { t₃ with anchors := A, functions := F, ledger := L
                     stats := { t₃.stats with calls := t₃.stats.calls + 1 } }.setThread
        { t₃.thread with
          shadow := t₃.thread.shadow.push arc x.sp (sc.returnTo t.blockOf) t₃.thread.exec.costed
          exec := { t₃.thread.exec with costed := if skip then t₃.thread.exec.costed.or (some s) else none } } ∧
      sc.callSource t.blockOf = some (s, n) ∧
      (∃ c₀, t.thread.exec.context = some c₀ ∧ Denotes t.anchors t.threads.current c₀ s) ∧
      sc.story.costed.or sc.last = sc.story.costed.or (some s) ∧
      if skip then arc = none ∧ F = t₃.functions ∧ L = t₃.ledger
      else ∃ arc', arc = some arc' ∧ Opens { t₃ with anchors := A } s n a arc' F L := by
  obtain ⟨hzero, d, hd⟩ := Transfer.of_enters (by rw [st.transfer]; exact hx)
  rw [st.transfer] at hzero
  have ht₁ : t₁ = t.countTransfer x := by
    have := st.pops
    rw [hzero] at this
    exact (Except.ok.inj this).symm
  obtain ⟨hprepareStays, -⟩ := prepare_stays st.prepared
  obtain ⟨-, -, hprepare⟩ := prepare_eq st.prepared
  obtain ⟨A, B, S, rfl, hA, hB, -⟩ := st.bill h
  have hlinked := st.linked
  rw [hd] at hlinked
  obtain ⟨A', s, n, hset, hsource, hpush⟩ := link_enters hlinked hx
  obtain ⟨arc, addr, F, L, haddr, rfl, -, -, harc⟩ := pushFrame_eq hpush
  have hcount : Stays t t₁ := by
    rw [ht₁]
    exact ⟨rfl, rfl, fun _ => rfl, fun _ => rfl, .refl _, .refl _, rfl, rfl⟩
  -- Nothing between the departure and the push moves what the return address is read from.
  have hstays : Stays t { t₂ with anchors := A', blocks := B, stats := S } :=
    hcount.trans (hprepareStays.trans
      ⟨rfl, rfl, fun _ => rfl, hB, .refl _, hA.trans (Directory.keeps_setNext hset), rfl, rfl⟩)
  have hcosted : t₂.thread.exec.costed = t.thread.exec.costed := by
    split at hprepare
    · rw [hprepare.thread, ht₁]
      rfl
    · rw [hprepare, ht₁]
      rfl
  obtain ⟨hcall, rfl, hcaller, hor⟩ := st.source_eq h hs hd hstays hcosted hsource haddr
  exact ⟨ht₁, d, A', s, n, arc, F, L, hd, hset, rfl, hcall, hcaller, hor, harc⟩

theorem Inv.counted (h : t.Inv) (x : Transfer) : (t.countTransfer x).Sound :=
  h.within ⟨rfl, .refl _, rfl, rfl, rfl, rfl, rfl⟩ h.active h.balance h.reported

/-- The callee is the block's function, which is on top of the stack that the new context stands for. -/
theorem Stages.callee_eq (st : Stages t pos id source r x skip c a t₁ t₂ t₃ t₄) (h : t.Inv)
    (ht₁ : t₁ = t.countTransfer x) (i : Interns t₁ t₂ r.block.fn) {d : Departure} {A : Directory}
    (hset : t₃.anchors.setNext d.anchor a = .ok A) {s : AnchorId} {n : Nat} {arc : CallArc} {F : FunctionTable}
    {L : Ledger} (o : Opens { t₃ with anchors := A } s n a arc F L) : arc.callee = r.block.fn := by
  obtain ⟨A₃, B, S, rfl, -, -, y, hy, hk⟩ := st.bill h
  have hsound : t₁.Sound := ht₁ ▸ h.counted x
  obtain ⟨c', hctx, hstands, htop⟩ := i.stands hsound
  rw [st.context] at hctx
  cases hctx
  obtain ⟨slots, hslots⟩ := FnStack.top?_eq_some htop
  rw [hslots] at hstands
  obtain ⟨y', hy', hk'⟩ := Directory.keeps_setNext hset a y hy
  exact functionOf_top o.callee ⟨y', hy', by rw [hk', hk], by rw [hk', hk]⟩ hstands

/-- The caller is on top of the stack that the context before stands for. -/
theorem Interns.caller_eq {t₁ t₂ : Tracker} {fn caller : FnId} (i : Interns t₁ t₂ fn) (h : t₁.Sound) {c₀ : ContextId}
    (hctx : t₁.thread.exec.context = some c₀) {u : ThreadId} {s : AnchorId} {A : Directory} {B : BlockTable} {S : Stats}
    (hs : Denotes A u c₀ s) (hcaller : functionOf { t₂ with anchors := A, blocks := B, stats := S } s = .ok caller) :
    t₁.thread.fns.top? = some caller := by
  have hl := h.active.lineage
  rw [hctx] at hl
  obtain ⟨g, below, hbelow, hstands⟩ := hl.top_of_context
  rw [hbelow] at hstands
  rw [functionOf_top hcaller hs (hstands.mono i.extends), FnStack.top?, hbelow]
  rfl

/-- A transfer that enters a function opens a call. -/
theorem Stages.tells_enters (st : Stages t pos id source r x skip c a t₁ t₂ t₃ t₄) (h : t.Inv)
    {sc : Scene ContextId Kept AnchorId} (hs : t.thread.Tells sc) (hx : x.enters = true) :
    ∃ kept, (t₄.settle a).thread.Tells
      ⟨.call { fn := r.block.fn, skipped := skip, sp := x.sp, returnTo := sc.returnTo t.blockOf
               costed := if skip then sc.story.costed.or sc.last else none } c kept sc.story, some a, 0⟩ := by
  obtain ⟨ht₁, d, A', s, n, arc, F, L, -, hset, rfl, -, ⟨c₀, hctx, hdenotes⟩, hor, harc⟩ := st.pushes h hs hx
  obtain ⟨hprepareStays, -⟩ := prepare_stays st.prepared
  obtain ⟨-, -, hprepare⟩ := prepare_eq st.prepared
  have hcallee : ∀ arc', Interns t₁ t₂ r.block.fn → Opens { t₃ with anchors := A' } s n a arc' F L →
      arc'.callee = r.block.fn := fun _ i o => st.callee_eq h ht₁ i hset o
  obtain ⟨A, B, S, rfl, hA, hB, -⟩ := st.bill h
  have hA' := Directory.keeps_setNext hset
  have hsound : t₁.Sound := ht₁ ▸ h.counted x
  have hs₁ : t₁.thread.Tells ⟨sc.story, sc.last, sc.passed⟩ := by
    rw [ht₁]
    exact hs
  have hctx₁ : t₁.thread.exec.context = some c₀ := by
    rw [ht₁]
    exact hctx
  have hdenotes₁ : Denotes t₁.anchors t₁.threads.current c₀ s := by
    rw [ht₁]
    exact hdenotes
  have hstarted : sc.story.started = true := by rw [← hs.isSome_context, hctx, Option.isSome_some]
  rw [hx, hctx₁, Bool.true_and, Option.isNone_some, Bool.or_false] at hprepare
  cases skip with
  | true =>
    rw [Bool.not_true, if_neg Bool.false_ne_true] at hprepare
    subst hprepare
    rw [if_pos rfl] at harc
    -- A skipped function opens no arc, and its own calls come from where it was called.
    obtain ⟨rfl, -⟩ := harc
    have hcostedS : t₂.thread.exec.costed = sc.story.costed := by rw [hs₁.exec]
    refine ⟨⟨⟨0⟩, t₂.thread.shadow.staged⟩, ?_⟩
    rw [if_pos rfl, hor, ← hcostedS]
    exact tells_settled (tells_skipped hs₁ hstarted r.block.fn c x.sp _ (t₂.thread.exec.costed.or (some s))) a
  | false =>
    rw [Bool.not_false, if_pos rfl] at hprepare
    rw [if_neg Bool.false_ne_true] at harc
    -- Any other function is entered over an arc from the function on top.
    obtain ⟨arc, rfl, hopens⟩ := harc
    have hcallee : arc.callee = r.block.fn := hcallee arc hprepare hopens
    have htop₁ : t₁.thread.fns.top? = some arc.caller :=
      hprepare.caller_eq hsound hctx₁ (hdenotes₁.mono (hprepareStays.anchors.trans (hA.trans hA'))) hopens.caller
    have hthread := hprepare.thread
    rw [st.context, ← hcallee] at hthread
    refine ⟨⟨arc.id, {}⟩, ?_⟩
    rw [if_neg Bool.false_ne_true, ← hcallee]
    exact tells_settled (tells_called hs₁ hstarted x.sp _ htop₁ hthread) a

/-- Where a block was entered, the running thread is told by the story it had before and the block. -/
theorem Stages.tells (st : Stages t pos id source r x skip c a t₁ t₂ t₃ t₄) (h : t.Inv)
    {sc : Scene ContextId Kept AnchorId} (hs : t.thread.Tells sc) :
    ∃ kept, (t₄.settle a).thread.Tells (sc.enter t.blockOf t.config.tailCalls skip r.block pos.sp a c kept) := by
  have htransfer := st.transfer_eq hs
  cases hx : x.enters with
  | true =>
    obtain ⟨kept, htells⟩ := st.tells_enters h hs hx
    refine ⟨kept, ?_⟩
    rw [Scene.enter_of_enters (by rw [htransfer]; exact hx), htransfer]
    exact htells
  | false =>
    refine ⟨⟨⟨0⟩, {}⟩, ?_⟩
    rw [Scene.enter_of_stays (by rw [htransfer]; exact hx), htransfer]
    exact st.tells_stays h hs hx

end Tracker
end CallGraph
