/-
  CallGraph.Proofs.Conservation — the counts of a summary agree with each other and with the events.

  The tallies of the ranking account for every execution and for every anchor, dropped or not (`Tallies`).
  What the tracker, its ledger and its registry counted is what the events so far say: how many of them
  were executions, signals, calls into skipped functions and discards of a block that was registered
  (`Follows`). Both go on through every event: `Gains` says what one event adds, with one lemma for each kind
  of event, and `Follows.add` enters it. At the end everything is left, which only counts returns.
  - `Trace.replay_conserves`: the summary of any replay.
-/

import CallGraph.Proofs.Chronicle
import CallGraph.Proofs.Holdings

namespace CallGraph

/-! ## Events -/

namespace Event

/-- A block is executed. -/
def isBlock : Event → Bool
  | .block .. => true
  | _ => false

/-- The block declared at a place is executed. -/
def runs (place : UInt32) : Event → Bool
  | .block _ _ place' _ => place' = place
  | _ => false

/-- A block is discarded, where `live` tells which ones are registered. -/
def drops (live : UInt32 → Bool) : Event → Bool
  | .discard place => live place
  | _ => false

/-- A block was executed since the last discard of it. -/
def ranSince (place : UInt32) (events : List Event) : Bool :=
  (events.reverse.takeWhile fun e => e ≠ .discard place).any (runs place)

theorem ranSince_append (place : UInt32) (events : List Event) (e : Event) :
    ranSince place (events ++ [e]) = if e = .discard place then false else runs place e || ranSince place events := by
  rw [ranSince, List.reverse_append, List.reverse_singleton, List.singleton_append, List.takeWhile_cons]
  by_cases h : e = .discard place
  · rw [if_neg (by simp [h]), if_pos h]
    rfl
  · rw [if_pos (by simp [h]), if_neg h]
    rfl

end Event

theorem countP_append_toNat {α : Type} (p : α → Bool) (l : List α) (x : α) :
    (l ++ [x]).countP p = l.countP p + (p x).toNat := by
  rw [List.countP_append, Replay.countP_cons_toNat]
  simp

theorem zipIdx_append_single {α : Type} (l : List α) (x : α) : (l ++ [x]).zipIdx = l.zipIdx ++ [(x, l.length)] := by
  rw [List.zipIdx_append, Nat.zero_add]
  rfl

namespace Trace

variable (trace : Trace) (config : Config)

/-- How many frames a thread has after the first `n` events. -/
def depthAfter (n : Nat) (u : ThreadId) : Nat :=
  match trace.after config n with
  | .ok r => (r.tracker.state u).shadow.depth
  | .error _ => 0

/-- The event at a place is a call into a skipped function: it executes a block of the function, and its thread has
one frame more afterwards. -/
def callsSkipped : Event × Nat → Bool
  | (.block tid _ place _, i) =>
    trace.depthAfter config i ⟨tid.toNat⟩ < trace.depthAfter config (i + 1) ⟨tid.toNat⟩ &&
      trace.blocks[place.toNat]?.any fun d => trace.skips config ⟨d.function.toNat⟩
  | _ => false

/-- The event at a place discards a block that was executed since it was discarded the last time. -/
def discards (p : Event × Nat) : Bool := p.1.drops fun place => Event.ranSince place (trace.events.take p.2)

variable {trace config}

theorem depthAfter_eq {n : Nat} {r : Replay} (h : trace.after config n = .ok r) (u : ThreadId) :
    trace.depthAfter config n u = (r.tracker.state u).shadow.depth := by
  rw [depthAfter, h]

theorem toBlock_function {d : BlockDecl} {b : Block} (h : trace.toBlock d = .ok b) : b.fn = ⟨d.function.toNat⟩ := by
  unfold toBlock Block.ofExits at h
  split at h
  · cases h
  · split at h
    · cases h
    · cases h
      rfl

end Trace

/-! ## Tallies -/

namespace Replay

variable {P : Program} {trace : Trace} {config : Config} {r r₁ r' : Replay} {w : World}

/-- The anchors of a context that are live. -/
def Has (r : Replay) (c : ContextId) (a : AnchorId) : Prop :=
  ∃ y, r.tracker.anchors.get? a = some y ∧ y.key.context = c

/-- The tallies account for all executions and for all anchors that were ever made. -/
structure Tallies (r : Replay) : Prop where
  lists : r.hotspots.Lists r.Has
  tallied : ∀ c x, r.tracker.contexts.get? c = some x → (r.hotspots.tallies.get? c.num).isSome = true
  executions : r.hotspots.executions = r.tracker.stats.blocksExecuted
  blocks : r.hotspots.blocks = r.tracker.anchors.size + r.tracker.stats.discardedAnchors

/-- Only a thread moved on: an interrupted one, or one that goes on where it was interrupted. -/
structure Turns (r : Replay) (u : ThreadId) (signals : Nat) (t : Tracker) : Prop where
  stays : Tracker.Stays (r.tracker.switchTo u) t
  contexts : t.contexts = r.tracker.contexts
  anchors : t.anchors = r.tracker.anchors
  ledger : r.tracker.ledger.SameCalls t.ledger
  stats : ∃ returns threadSwitches, t.stats = { r.tracker.stats with returns, threadSwitches, signals }

/-- A signal or its return only turns a thread to something else. -/
theorem play_turns (h : r.tracker.Inv) {i : Nat} {e : Event} {u : ThreadId} (hu : e.thread? = some u)
    (hblock : e.isBlock = false) (hplay : play trace r i e = .ok r') :
    ∃ t, r' = { r with tracker := t } ∧ Turns r u (r.tracker.stats.signals + e.isSignal.toNat) t := by
  obtain ⟨-, -, -, hcontexts, hanchors, hledger⟩ := Tracker.Stays.switchTo r.tracker u
  have hstats := Tracker.stats_switchTo r.tracker u
  obtain ⟨sc, hs⟩ := (h.state u).1.story
  cases e with
  | block tid sp place exit => cases hblock
  | discard place => cases hu
  | signal tid signal =>
    obtain rfl := Option.some.inj hu
    obtain ⟨t, henter, rfl⟩ := play_signal_eq.mp hplay
    obtain ⟨-, hstays, -⟩ := Tracker.enterHandler_tells henter hs
    obtain ⟨s, ht⟩ := Tracker.enterHandler_eq henter
    refine ⟨t, rfl, hstays, by rw [ht]; exact hcontexts, by rw [ht]; exact hanchors, ?_, ?_⟩
    · rw [ht]
      show r.tracker.ledger.SameCalls (r.tracker.switchTo _).ledger
      rw [hledger]
      exact .refl _
    · refine ⟨r.tracker.stats.returns, (r.tracker.switchTo ⟨tid.toNat⟩).stats.threadSwitches, ?_⟩
      rw [ht, hstats]
      rfl
  | signalReturn tid signal =>
    obtain rfl := Option.some.inj hu
    obtain ⟨-, t, hexit, rfl⟩ := play_signalReturn_eq.mp hplay
    obtain ⟨-, hu, -⟩ := Tracker.exitHandler_tells hexit hs
    -- Leaving the handler may leave calls in it, so returns may be counted.
    obtain ⟨n, hreturns, -⟩ := hu.returns
    refine ⟨t, rfl, hu.stays, hu.contexts.trans hcontexts, hu.anchors.trans hanchors, ?_, ?_⟩
    · rw [← hledger]
      exact hu.ledger
    · refine ⟨(r.tracker.switchTo ⟨tid.toNat⟩).stats.returns + n,
        (r.tracker.switchTo ⟨tid.toNat⟩).stats.threadSwitches, ?_⟩
      rw [hreturns, hstats]
      rfl

theorem start_tallies (hr : start trace config = .ok r) : r.Tallies := by
  obtain ⟨C, A, F, hC, hA, rfl, -⟩ := start_eq hr
  obtain ⟨-, -, hnone⟩ := ContextTable.ofBuckets_filed hC
  obtain ⟨-, hsize, hnone'⟩ := Directory.ofBuckets_filed hA
  refine ⟨⟨fun _ => List.nodup_nil, fun c a => iff_of_false List.not_mem_nil ?_⟩, fun c x hx => absurd hx (hnone c x), rfl,
    ?_⟩
  · rintro ⟨y, hy, -⟩
    exact hnone' a y hy
  · show 0 = A.size + 0
    rw [hsize]

theorem Tallies.turn (h : r.Tallies) {u : ThreadId} {n : Nat} {t : Tracker} (m : Turns r u n t) :
    Tallies { r with tracker := t } := by
  obtain ⟨returns, threadSwitches, hstats⟩ := m.stats
  refine ⟨h.lists.congr fun c a => ?_, fun c x hx => ?_, ?_, ?_⟩
  · rw [Has, Has, m.anchors]
  · rw [m.contexts] at hx
    exact h.tallied c x hx
  · rw [hstats]
    exact h.executions
  · rw [hstats, m.anchors]
    exact h.blocks

/-- A visit is an execution in its context, and a block there if it made an anchor. -/
theorem Tallies.visit (h : r.Tallies) (hshows : Shows P r w) (o : r.tracker.InOrder) {pos : Position} {place : Nat}
    {exit : Option Nat} {d : BlockDecl} {id : BlockId} {a : AnchorId} {t : Tracker} {y : Anchor}
    (vis : Visited trace r pos place exit d id r₁ a t y r') {b : Block} (hb : trace.toBlock d = .ok b)
    (hP : P.block place = some b) : r'.Tallies := by
  obtain ⟨blocks, live, p, hr₁, h₁, -, -, -, -, -, e⟩ := vis.entered_eq hshows hb hP o.contexts
  obtain ⟨-, hkept, hy, hhotspots⟩ := vis.kept hshows hb hP
  have hslots := h₁.inv.tables.anchorSlots
  have hcontexts₁ : r₁.tracker.contexts = r.tracker.contexts := by rw [hr₁]
  have hanchors₁ : r₁.tracker.anchors = r.tracker.anchors := by rw [hr₁]
  have hstats₁ : r₁.tracker.stats = r.tracker.stats := by rw [hr₁]
  -- An anchor more is in a context exactly if the visit made it there.
  have hhas : ∀ c b, r'.Has c b ↔ r.Has c b ∨ c = y.key.context ∧ b = a := by
    intro c b
    constructor
    · rintro ⟨z, hz, rfl⟩
      obtain ⟨⟨z₀, hz₀, hk, -⟩ | ⟨rfl, hk, -⟩, -⟩ := e.of_live hslots hz
      · exact .inl ⟨z₀, by rw [← hanchors₁, hz₀], by rw [hk]⟩
      · exact .inr ⟨by rw [hk], rfl⟩
    · rintro (⟨z, hz, rfl⟩ | ⟨rfl, rfl⟩)
      · obtain ⟨z', hz', hk⟩ := hkept b z hz
        exact ⟨z', hz', by rw [hk]⟩
      · exact ⟨y, hy, rfl⟩
  refine ⟨?_, fun c x hx => ?_, ?_, ?_⟩
  · rw [hhotspots]
    exact (h.lists.record y.key.context a).congr hhas
  · rw [hhotspots, Hotspots.get?_record]
    split
    · rfl
    · rename_i hc
      obtain ⟨-, hsame | hadds⟩ := e.contexts
      · exact h.tallied c x (by rw [← hcontexts₁, ← hsame, hx])
      · exact h.tallied c x (by rw [← hcontexts₁]; exact (hadds.old c x hx).resolve_left hc)
  · rw [hhotspots, Hotspots.executions_record, h.executions, e.stats.blocksExecuted, hstats₁]
  · have hlisted : (r.hotspots.tallyOf y.key.context).live.contains a = true ↔ r.Has y.key.context a := by
      rw [List.contains_eq_mem, decide_eq_true_iff]
      exact h.lists.mem ..
    obtain ⟨-, ⟨hholds, hsize⟩ | ⟨hnew, hsize⟩⟩ := e.anchors_filed hslots (by rw [hanchors₁]; exact o.anchors)
    · -- The key had an anchor: the context lists it already, and counts no block more.
      obtain ⟨z, hz, hk⟩ := Directory.holds_iff.mp hholds
      have hbilled := hlisted.mpr ⟨z, by rw [← hanchors₁, hz], by rw [hk]⟩
      rw [hhotspots, Hotspots.blocks_record, hbilled, h.blocks, hsize, e.stats.discardedAnchors, hanchors₁, hstats₁]
      rfl
    · -- The anchor is new, so the context cannot list it yet.
      have hbilled : (r.hotspots.tallyOf y.key.context).live.contains a = false := by
        refine Bool.eq_false_iff.mpr fun hbilled => ?_
        obtain ⟨z, hz, -⟩ := hlisted.mp hbilled
        obtain ⟨z', hz', hk⟩ := hkept a z hz
        cases hy.symm.trans hz'
        exact hnew a z (by rw [hanchors₁, hz]) hk.symm
      rw [hhotspots, Hotspots.blocks_record, hbilled, h.blocks, hsize, e.stats.discardedAnchors, hanchors₁, hstats₁]
      show _ + 1 = _ + 1 + _
      omega

/-- The anchors of a block that was dropped are retired, and still count. -/
theorem Tallies.discard (h : r.Tallies) (hinv : r.tracker.Inv) (o : r.tracker.InOrder) (o' : r'.tracker.InOrder)
    {place : Nat} (hplay : playDiscard r place = .ok r') : r'.Tallies := by
  obtain ⟨-, rfl⟩ | ⟨id, res, hotspots, -, hres, hretire, rfl⟩ := playDiscard_eq hplay
  · exact h
  · obtain ⟨A, B, L, hdiscard, c, -⟩ := Tracker.discardBlock_live hres
    obtain ⟨hlists, hblocks⟩ := h.lists.retireAll (A := r.tracker.anchors) (fun a y hy d hd => by
      obtain ⟨z, hz, rfl⟩ := hd
      cases hy.symm.trans hz
      rfl) hretire
    obtain ⟨hloads, -⟩ := Hotspots.loads_retireAll hretire
    have hsize := c.size_add hinv.tables o.counted (by
      have hcounted := o'.counted
      rw [hdiscard] at hcounted
      exact hcounted)
    rw [hdiscard]
    refine ⟨hlists.congr fun d a => ?_, fun d x hx => ?_, ?_, ?_⟩
    · constructor
      · rintro ⟨y, hy, rfl⟩
        obtain ⟨y₀, hy₀, hne, hk, -⟩ := c.of_anchor hinv.tables hy
        refine ⟨⟨y₀, hy₀, by rw [hk]⟩, fun ha => ?_⟩
        exact hne ((hinv.tables.mem_anchors_iff hres hy₀).mp ha)
      · rintro ⟨⟨y, hy, rfl⟩, ha⟩
        obtain ⟨y', hy', hk⟩ := c.kept hy ha
        exact ⟨y', hy', by rw [hk]⟩
    · rw [← Hotspots.isSome_loads, hloads, Hotspots.isSome_loads]
      exact h.tallied d x hx
    · rw [← Hotspots.executions_loads, hloads, Hotspots.executions_loads]
      exact h.executions
    · -- The anchors that are gone were counted as discarded.
      rw [hblocks, h.blocks]
      show _ = A.size + (r.tracker.stats.discardedAnchors + res.anchors.length)
      omega

/-! ## Counts -/

/-- What the events so far say is what was counted. -/
structure Follows (trace : Trace) (config : Config) (events : List Event) (r : Replay) : Prop where
  blocksExecuted : r.tracker.stats.blocksExecuted = events.countP Event.isBlock
  signals : r.tracker.stats.signals = events.countP Event.isSignal
  calls : r.tracker.stats.calls = r.tracker.ledger.totalCalls + events.zipIdx.countP (trace.callsSkipped config)
  arcs : r.tracker.ledger.arcCount ≤ r.tracker.ledger.totalCalls
  threads : ∀ u, u ∈ r.tracker.threads.ids ↔ u = .initial ∨ u ∈ events.filterMap Event.thread?
  live : ∀ place : UInt32, (r.idOf place.toNat).isSome = Event.ranSince place events
  discardedBlocks : r.tracker.stats.discardedBlocks = events.zipIdx.countP trace.discards

/-- What the event at place `n` adds to the counts. -/
structure Gains (trace : Trace) (config : Config) (n : Nat) (e : Event) (r r' : Replay) : Prop where
  blocksExecuted : r'.tracker.stats.blocksExecuted = r.tracker.stats.blocksExecuted + e.isBlock.toNat
  signals : r'.tracker.stats.signals = r.tracker.stats.signals + e.isSignal.toNat
  calls : ∃ k, r'.tracker.ledger.totalCalls = r.tracker.ledger.totalCalls + k ∧
    r'.tracker.ledger.arcCount ≤ r.tracker.ledger.arcCount + k ∧
    r'.tracker.stats.calls = r.tracker.stats.calls + k + (trace.callsSkipped config (e, n)).toNat
  threads : ∀ u, u ∈ r'.tracker.threads.ids ↔ e.thread? = some u ∨ u ∈ r.tracker.threads.ids
  live : ∀ place : UInt32, (r'.idOf place.toNat).isSome =
    if e = .discard place then false else e.runs place || (r.idOf place.toNat).isSome
  discardedBlocks : r'.tracker.stats.discardedBlocks =
    r.tracker.stats.discardedBlocks + (e.drops fun place => (r.idOf place.toNat).isSome).toNat

theorem start_follows (hr : start trace config = .ok r) : Follows trace config [] r := by
  obtain ⟨C, A, F, -, -, rfl, -⟩ := start_eq hr
  refine ⟨rfl, rfl, rfl, Nat.le_refl _, fun u => ?_, fun place => ?_, rfl⟩
  · rw [List.filterMap_nil, or_iff_left List.not_mem_nil]
    show u ∈ Registry.initial.ids ↔ _
    rw [Registry.mem_ids, Registry.get?]
    split
    · rename_i e
      exact iff_of_true ⟨_, rfl⟩ e
    · rename_i e
      exact iff_of_false (by rintro ⟨s, hs⟩; cases hs) e
  · show ((Array.replicate trace.blocks.size none)[place.toNat]?.join : Option BlockId).isSome = false
    rw [Array.getElem?_replicate]
    split <;> rfl

/-- With one event more the counts say so. -/
theorem Follows.add {n : Nat} {e : Event} (h : Follows trace config (trace.events.take n) r)
    (he : trace.events[n]? = some e) (g : Gains trace config n e r r') :
    Follows trace config (trace.events.take n ++ [e]) r' := by
  have hlength : (trace.events.take n).length = n := by
    have := (List.getElem?_eq_some_iff.mp he).1
    rw [List.length_take]
    omega
  have hlast : ∀ p : Event × Nat → Bool, (trace.events.take n ++ [e]).zipIdx.countP p =
      (trace.events.take n).zipIdx.countP p + (p (e, n)).toNat := by
    intro p
    rw [zipIdx_append_single, countP_append_toNat, hlength]
  obtain ⟨k, htotal, harcs, hcalls⟩ := g.calls
  refine ⟨?_, ?_, ?_, ?_, fun u => ?_, fun place => ?_, ?_⟩
  · rw [g.blocksExecuted, h.blocksExecuted, countP_append_toNat]
  · rw [g.signals, h.signals, countP_append_toNat]
  · rw [hcalls, h.calls, htotal, hlast]
    omega
  · have := h.arcs
    omega
  · rw [g.threads, h.threads, List.filterMap_append, List.mem_append, or_left_comm, or_comm (b := u ∈ _)]
    refine or_congr_right (or_congr_right ?_)
    cases hu : e.thread? <;> simp [hu, eq_comm]
  · rw [g.live, h.live, Event.ranSince_append]
  · rw [g.discardedBlocks, h.discardedBlocks, hlast]
    simp only [h.live]
    rfl

theorem gains_of_turns {n : Nat} {e : Event} {u : ThreadId} (hu : e.thread? = some u) (hblock : e.isBlock = false)
    {t : Tracker} (m : Turns r u (r.tracker.stats.signals + e.isSignal.toNat) t) :
    Gains trace config n e r { r with tracker := t } := by
  obtain ⟨returns, threadSwitches, hstats⟩ := m.stats
  have hcalls : t.ledger.calls = r.tracker.ledger.calls := m.ledger.calls
  refine ⟨?_, ?_, ⟨0, ?_, ?_, ?_⟩, fun v => ?_, fun place => ?_, ?_⟩
  · rw [hstats, hblock]
    rfl
  · rw [hstats]
  · rw [Ledger.totalCalls, hcalls]
    rfl
  · rw [Ledger.arcCount, hcalls]
    exact Nat.le_refl _
  · rw [hstats]
    cases e with
    | block => cases hblock
    | signal | signalReturn | discard => rfl
  · rw [m.stays.mem_ids, hu, Option.some.injEq, eq_comm]
  · cases e with
    | block => cases hblock
    | discard => cases hu
    | signal | signalReturn => rfl
  · rw [hstats]
    cases e with
    | discard => cases hu
    | block | signal | signalReturn => rfl

/-- A call is what puts a frame more on the thread. -/
theorem enters_eq_deeper (P : Program) (sp : Addr) (place : Nat) (b : Block) (passed : Nat) (sc : Actor) :
    (sc.transfer P.blockOf P.tailCalls b sp).enters =
      decide (sc.story.depth < (P.visit sp place b passed sc).story.depth) := by
  have hvisit : (P.visit sp place b passed sc).story =
      (sc.enter P.blockOf P.tailCalls (P.skips b.fn) b sp (P.site sp place b sc) () ()).story := rfl
  rw [hvisit]
  cases hx : (sc.transfer P.blockOf P.tailCalls b sp).enters with
  | true =>
    rw [Scene.enter_of_enters hx]
    exact (decide_eq_true (Nat.lt_succ_self _)).symm
  | false =>
    rw [Scene.depth_enter hx]
    exact (decide_eq_false (by omega)).symm

theorem Shows.depth (h : Shows P r w) (u : ThreadId) : (r.tracker.state u).shadow.depth = (w u).story.depth := by
  have hlength := congrArg List.length (h.levels u)
  rw [List.length_map, List.length_map, Story.length_marks] at hlength
  exact hlength

/-- Only the block that is about to run is registered. -/
theorem isSome_idOf_resident {place : Nat} {d : BlockDecl} {id : BlockId} (hr : resident trace r place d = .ok (id, r₁))
    (q : Nat) : (r₁.idOf q).isSome = (decide (q = place) || (r.idOf q).isSome) := by
  obtain ⟨hplace, ⟨hid, rfl⟩ | ⟨-, b, t, -, -, rfl⟩⟩ := resident_eq hr
  · by_cases e : q = place
    · rw [e, hid, decide_eq_true rfl]
      rfl
    · rw [decide_eq_false e, Bool.false_or]
  · show ((r.live.setIfInBounds place (some id))[q]?.join).isSome = _
    rw [join_setIfInBounds hplace]
    by_cases e : q = place
    · rw [if_pos e, decide_eq_true e]
      rfl
    · rw [if_neg e, decide_eq_false e, Bool.false_or]
      rfl

theorem gains_of_visit (h : Shows (trace.program config) r w) (o : r.tracker.InOrder) {n : Nat} {tid : UInt32} {sp : Addr}
    {place : UInt32} {exit : Option UInt64} (hr : trace.after config n = .ok r)
    (hr' : trace.after config (n + 1) = .ok r') {d : BlockDecl} {id : BlockId} {a : AnchorId} {t : Tracker} {y : Anchor}
    (vis : Visited trace r ⟨⟨tid.toNat⟩, sp⟩ place.toNat (exit.map UInt64.toNat) d id r₁ a t y r') {b : Block}
    (hb : trace.toBlock d = .ok b) (hP : (trace.program config).block place.toNat = some b) :
    Gains trace config n (.block tid sp place exit) r r' := by
  obtain ⟨blocks, live, p, hr₁, h₁, -, -, -, -, -, e⟩ := vis.entered_eq h hb hP o.contexts
  obtain ⟨hshows', -⟩ := vis.shows h hb hP
  obtain ⟨hstays, -⟩ := Tracker.enterBlock_stays h₁.inv vis.entered
  have hstays := hstays.trans (Tracker.setExitsPassed_stays t ((exit.map UInt64.toNat).getD d.finalIndex))
  have hledger₁ : r₁.tracker.ledger = r.tracker.ledger := by rw [hr₁]
  have hstats₁ : r₁.tracker.stats = r.tracker.stats := by rw [hr₁]
  have hthreads₁ : r₁.tracker.threads = r.tracker.threads := by rw [hr₁]
  have hcalls := e.calls (by rw [hledger₁]; exact o.numbered)
  have hstats := e.stats
  rw [hledger₁] at hcalls
  rw [hstats₁] at hstats
  -- A call into a skipped function is told from outside by the depth that grows.
  have hdeeper : (((w ⟨tid.toNat⟩).transfer (trace.program config).blockOf (trace.program config).tailCalls b sp).enters &&
      (trace.program config).skips b.fn) = trace.callsSkipped config (.block tid sp place exit, n) := by
    simp only [Trace.callsSkipped, Trace.depthAfter_eq hr, Trace.depthAfter_eq hr', h.depth, hshows'.depth,
      Function.update_self, vis.decl, Option.any_some]
    rw [enters_eq_deeper _ sp place.toNat b ((exit.map UInt64.toNat).getD d.finalIndex), Trace.toBlock_function hb]
    rfl
  refine ⟨hstats.blocksExecuted, hstats.signals, ⟨_, hcalls.1, hcalls.2, ?_⟩, fun u => ?_, fun q => ?_,
    hstats.discardedBlocks⟩
  · rw [← hdeeper, hstats.calls]
    cases Transfer.enters _ <;> cases (trace.program config).skips b.fn <;> rfl
  · have hids : u ∈ r'.tracker.threads.ids ↔ u = ⟨tid.toNat⟩ ∨ u ∈ r₁.tracker.threads.ids := by
      rw [vis.result]
      exact hstays.mem_ids
    rw [hids, hthreads₁]
    exact or_congr_left (eq_comm.trans (Option.some_inj (a := (⟨tid.toNat⟩ : ThreadId))).symm)
  · have hlive : r'.idOf q.toNat = r₁.idOf q.toNat := by rw [vis.result]; rfl
    have hplace := (h.declared place.toNat b hP).2
    rw [hlive, isSome_idOf_resident vis.resident, if_neg (by simp)]
    have hsame : q.toNat = place.toNat ↔ place = q := UInt32.toNat_inj.trans eq_comm
    show (decide (q.toNat = place.toNat) || _) = (decide (place = q) || _)
    rw [decide_eq_decide.mpr hsame]

theorem gains_of_discard {n : Nat} {place : UInt32} (hplay : playDiscard r place.toNat = .ok r') :
    Gains trace config n (.discard place) r r' := by
  have hother : ∀ {q : UInt32}, q.toNat = place.toNat ↔ Event.discard place = .discard q := by
    intro q
    rw [UInt32.toNat_inj, Event.discard.injEq, eq_comm]
  obtain ⟨hnone, rfl⟩ | ⟨id, o, hotspots, hid, ho, -, rfl⟩ := playDiscard_eq hplay
  · -- Nothing lives at the place, so nothing is dropped.
    refine ⟨rfl, rfl, ⟨0, rfl, Nat.le_refl _, rfl⟩, fun u => ?_, fun q => ?_, ?_⟩
    · exact (or_iff_right (by rintro ⟨⟩)).symm
    · show _ = if _ then false else false || _
      rw [Bool.false_or]
      split
      · rename_i e
        rw [hother.mpr e, hnone]
        rfl
      · rfl
    · show _ = _ + (r'.idOf place.toNat).isSome.toNat
      rw [hnone]
      rfl
  · obtain ⟨A, B, L, hdiscard, -, hdrops⟩ := Tracker.discardBlock_live ho
    rw [hdiscard]
    refine ⟨rfl, rfl, ⟨0, ?_, ?_, rfl⟩, fun u => ?_, fun q => ?_, ?_⟩
    · show L.totalCalls = _
      rw [Ledger.totalCalls, hdrops.calls]
      rfl
    · show L.arcCount ≤ _
      rw [Ledger.arcCount, hdrops.calls]
      exact Nat.le_refl _
    · show u ∈ (r.tracker.threads.forget _).ids ↔ _
      rw [Registry.mem_ids_forget]
      exact (or_iff_right (by rintro ⟨⟩)).symm
    · show ((r.live.setIfInBounds place.toNat none)[q.toNat]?.join).isSome = if _ then false else false || _
      rw [join_setIfInBounds (size_of_idOf hid), Bool.false_or]
      by_cases e : q.toNat = place.toNat
      · rw [if_pos e, if_pos (hother.mp e)]
        rfl
      · rw [if_neg e, if_neg fun e' => e (hother.mpr e')]
        rfl
    · show _ = _ + (r.idOf place.toNat).isSome.toNat
      rw [hid]
      rfl

end Replay

/-! ## After some events -/

namespace Trace

variable {trace : Trace} {config : Config} {r : Replay} {n : Nat}

theorem after_tallies (hvalid : trace.check = .ok ()) (hr : trace.after config n = .ok r) : r.Tallies := by
  obtain ⟨hblocks, -⟩ := check_eq_ok hvalid
  refine after_induction (fun r hr => Replay.start_tallies hr) (fun n e r r' he hr h hplay => ?_) hr
  obtain ⟨w, -, hshows⟩ := after_eq hvalid (config_ok hr) hr
  have o := after_inOrder hr
  cases e with
  | block tid sp place exit =>
    obtain ⟨d, b, id, r₁, a, t, y, vis, hb, hP⟩ := Replay.play_visited hblocks hplay
    exact h.visit hshows o vis hb hP
  | signal | signalReturn =>
    obtain ⟨t, rfl, m⟩ := Replay.play_turns hshows.inv rfl rfl hplay
    exact h.turn m
  | discard place =>
    have o' : r'.tracker.InOrder := Tracker.reach_inOrder (Replay.play_reach (after_reach hr) hplay)
    exact h.discard hshows.inv o o' (lift_eq_ok.mp hplay)

/-- An event adds to the counts what it is. -/
theorem play_gains (hvalid : trace.check = .ok ()) {e : Event} (he : trace.events[n]? = some e)
    (hr : trace.after config n = .ok r) {r' : Replay} (hplay : Replay.play trace r n e = .ok r') :
    Replay.Gains trace config n e r r' := by
  obtain ⟨hblocks, -⟩ := check_eq_ok hvalid
  obtain ⟨w, -, hshows⟩ := after_eq hvalid (config_ok hr) hr
  cases e with
  | block tid sp place exit =>
    have hr' : trace.after config (n + 1) = .ok r' := by
      rw [after_succ he, hr]
      exact hplay
    obtain ⟨d, b, id, r₁, a, t, y, vis, hb, hP⟩ := Replay.play_visited hblocks hplay
    exact Replay.gains_of_visit hshows (after_inOrder hr) hr hr' vis hb hP
  | signal | signalReturn =>
    obtain ⟨t, rfl, m⟩ := Replay.play_turns hshows.inv rfl rfl hplay
    exact Replay.gains_of_turns rfl rfl m
  | discard place => exact Replay.gains_of_discard (lift_eq_ok.mp hplay)

theorem after_follows (hvalid : trace.check = .ok ()) (hr : trace.after config n = .ok r) :
    Replay.Follows trace config (trace.events.take n) r :=
  after_induction_events (fun _ => Replay.start_follows)
    (fun _ _ _ _ he hr h hplay => h.add he (play_gains hvalid he hr hplay)) hr

end Trace

/-! ## Summaries -/

/-- The counts of a summary agree with each other and with the events. -/
structure Summary.Conserves (s : Summary) (trace : Trace) (config : Config) : Prop where
  executions : (s.hotspots.map Hotspot.executions).sum = s.stats.blocksExecuted
  blocksExecuted : s.stats.blocksExecuted = trace.events.countP Event.isBlock
  /-- Anchors that were dropped still count for their contexts. -/
  blocks : (s.hotspots.map Hotspot.blocks).sum = s.anchors + s.stats.discardedAnchors
  hotspots : s.hotspots.length = s.contexts
  /-- Every context is ranked once, under the name and with the depth of its chain, and no two have the same chain. -/
  contexts : ∃ (r : Replay) (ids : List ContextId), trace.after config trace.events.length = .ok r ∧
    (∀ c, c ∈ ids ↔ ∃ x, r.tracker.contexts.get? c = some x) ∧ (ids.map r.chainOf).Nodup ∧
    s.hotspots.map (fun h => (h.context, h.depth)) =
      ids.map fun c => ((trace.program config).title (r.chainOf c), (r.chainOf c).length)
  returns : s.stats.calls = s.stats.returns
  /-- Only calls into skipped functions have no arc. -/
  calls : s.stats.calls = s.calls + trace.events.zipIdx.countP (trace.callsSkipped config)
  arcs : s.arcs ≤ s.calls
  signals : s.stats.signals = trace.events.countP Event.isSignal
  discardedBlocks : s.stats.discardedBlocks = trace.events.zipIdx.countP trace.discards
  threads : s.threads = distinct (.initial :: trace.events.filterMap Event.thread?)

namespace Replay

variable {P : Program} {trace : Trace} {config : Config} {r : Replay} {w : World} {s : Summary}

/-- The end of a replay finds the threads that there are. -/
theorem close_threads (h : r.tracker.Inv) (hs : r.close trace = .ok s) : s.threads = r.tracker.threads.ids.length := by
  unfold close at hs
  obtain ⟨t, hfinish, hs⟩ := bind_eq_ok.mp hs
  obtain ⟨rows, -, hs⟩ := bind_eq_ok.mp hs
  cases hs
  obtain ⟨t', hfinish', hinv, -⟩ := Tracker.finish_ok h
  cases hfinish.symm.trans hfinish'
  have hperm : t.threads.ids.Perm r.tracker.threads.ids :=
    (List.perm_ext_iff_of_nodup (Registry.ids_nodup _) (Registry.ids_nodup _)).mpr fun _ => Tracker.mem_ids_finish h hfinish
  rw [← hperm.length_eq, Registry.length_ids hinv.apart]

/-- The contexts that are ranked are all contexts, each once. -/
theorem Tallies.ranked_ids (h : r.Tallies) (hshows : Shows P r w) :
    (r.hotspots.ranked.map Prod.fst).Nodup ∧
      ∀ c, c ∈ r.hotspots.ranked.map Prod.fst ↔ ∃ x, r.tracker.contexts.get? c = some x := by
  have hperm : (r.hotspots.ranked.map Prod.fst).Perm (r.hotspots.tallies.entries.map fun p => ⟨p.1⟩) := by
    have hperm := r.hotspots.ranked_perm.map fun p => (⟨p.1⟩ : ContextId)
    rw [List.map_map] at hperm
    exact hperm
  refine ⟨hperm.nodup_iff.mpr ?_, fun c => ?_⟩
  · rw [List.Nodup, List.pairwise_map]
    exact r.hotspots.tallies.sorted.imp fun hlt e => Nat.ne_of_lt hlt (congrArg ContextId.num e)
  · rw [hperm.mem_iff, List.mem_map]
    constructor
    · rintro ⟨p, hp, rfl⟩
      exact hshows.ranked p hp
    · rintro ⟨x, hx⟩
      obtain ⟨t, ht⟩ := Option.isSome_iff_exists.mp (h.tallied c x hx)
      exact ⟨_, SortedMap.mem_of_get? ht, rfl⟩

/-- What a replay with its tallies and counts in order is summed up to. -/
theorem close_conserves (hshows : Shows (trace.program config) r w) (o : r.tracker.InOrder) (h : r.Tallies)
    (f : Follows trace config trace.events r) (hr : trace.after config trace.events.length = .ok r)
    (hs : r.close trace = .ok s) : s.Conserves trace config := by
  obtain ⟨s₀, hs₀, hcontexts, hanchors, harcs, hcalls, -, hstats, hhotspots⟩ := close_eq hshows trace
  cases hs.symm.trans hs₀
  obtain ⟨hnodup, hids⟩ := h.ranked_ids hshows
  -- No chain has two numbers, so the ranking names no chain twice.
  have hchains : ((r.hotspots.ranked.map Prod.fst).map r.chainOf).Nodup := by
    refine hnodup.map_on fun c hc d hd hsame => ?_
    obtain ⟨x, hx⟩ := (hids c).mp hc
    obtain ⟨y, hy⟩ := (hids d).mp hd
    rw [chainOf, chainOf, hx, hy] at hsame
    exact o.contexts.distinct c d x y hx hy hsame
  -- The ranking is a permutation of all the numbers of contexts.
  have hlength : r.hotspots.ranked.length = r.tracker.contexts.size := by
    have hperm : (r.hotspots.ranked.map Prod.fst).Perm
        ((List.range r.tracker.contexts.size).map ContextId.mk) := by
      refine (List.perm_ext_iff_of_nodup hnodup (List.nodup_range.map fun i j e => congrArg ContextId.num e)).mpr
        fun c => ?_
      rw [hids, List.mem_map]
      constructor
      · rintro ⟨x, hx⟩
        exact ⟨c.num, List.mem_range.mpr (Array.getElem?_eq_some_iff.mp hx).1, rfl⟩
      · rintro ⟨i, hi, rfl⟩
        exact ⟨_, Array.getElem?_eq_getElem (List.mem_range.mp hi)⟩
    have hlength := hperm.length_eq
    rw [List.length_map, List.length_map, List.length_range] at hlength
    exact hlength
  have hthreads : r.tracker.threads.ids.Perm (.initial :: trace.events.filterMap Event.thread?).dedup := by
    refine (List.perm_ext_iff_of_nodup (Registry.ids_nodup _) (List.nodup_dedup _)).mpr fun u => ?_
    rw [f.threads, List.mem_dedup, List.mem_cons]
  refine ⟨?_, ?_, ?_, ?_, ⟨r, _, hr, hids, hchains, ?_⟩, ?_, ?_, ?_, ?_, ?_, ?_⟩
  · rw [hhotspots, List.map_map, hstats]
    exact (r.hotspots.weigh_ranked Tally.executions).trans h.executions
  · rw [hstats]
    exact f.blocksExecuted
  · rw [hhotspots, List.map_map, hanchors, hstats]
    exact (r.hotspots.weigh_ranked Tally.blocks).trans h.blocks
  · rw [hhotspots, List.length_map, hlength, hcontexts]
  · rw [hhotspots, List.map_map, List.map_map]
    rfl
  · rw [hstats]
    exact o.balanced
  · rw [hstats, hcalls]
    exact f.calls
  · rw [harcs, hcalls]
    exact f.arcs
  · rw [hstats]
    exact f.signals
  · rw [hstats]
    exact f.discardedBlocks
  · rw [close_threads hshows.inv hs, hthreads.length_eq]
    rfl

end Replay

namespace Trace

variable {trace : Trace} {config : Config}

/-- Whatever the trace and the settings, a replay that comes to a summary counted everything once: the executions of
the ranked contexts are the block events, their blocks are the anchors that are live or were dropped, each context
is ranked once, every call returned, all calls but those into skipped functions went over an arc, and signals,
discards and threads are those of the events. -/
theorem replay_conserves {s : Summary} (h : trace.replay config = .ok s) : s.Conserves trace config := by
  obtain ⟨r, hr, hclose⟩ := after_of_replay h
  have hvalid := check_ok hr
  obtain ⟨w, -, hshows⟩ := after_eq hvalid (config_ok hr) hr
  have hfollows := after_follows hvalid hr
  rw [List.take_length] at hfollows
  exact Replay.close_conserves hshows (after_inOrder hr) (after_tallies hvalid hr) hfollows hr hclose

/-- `main` calls `work` through `glue`, which is skipped. The block of `work` is dropped, once more in vain, and runs
again in a handler; then another thread starts. -/
def droppedRun : Trace where
  objects := #["program"]
  functions := #[{ name := "main", object := 0 }, { name := "glue", object := 0, skip := true },
    { name := "work", object := 0 }]
  blocks := #[
    { addr := ⟨100⟩, function := 0, isEntry := true, exits := [{ kind := .call, size := 5 }] },
    { addr := ⟨200⟩, function := 1, isEntry := true, exits := [{ kind := .call, size := 5 }] },
    { addr := ⟨300⟩, function := 2, isEntry := true, exits := [{ kind := .ret, size := 1 }] }]
  events := [.block 1 ⟨1000⟩ 0 none, .block 1 ⟨990⟩ 1 none, .block 1 ⟨980⟩ 2 none, .discard 2, .discard 2, .signal 1 5,
    .block 1 ⟨970⟩ 2 none, .signalReturn 1 5, .block 2 ⟨2000⟩ 0 none]

theorem replay_conserves_droppedRun :
    ∃ s, droppedRun.replay Tracker.fewBuckets = .ok s ∧ s.Conserves droppedRun Tracker.fewBuckets ∧
      s.stats.blocksExecuted = 5 ∧ s.stats.calls = s.calls + 1 ∧ s.stats.signals = 1 ∧ s.stats.discardedBlocks = 1 ∧
      s.threads = 2 := by
  have hvalid : droppedRun.check = .ok () := by decide +kernel
  have hconfig : Tracker.fewBuckets.check = .ok () := by decide
  have hend : (droppedRun.after Tracker.fewBuckets 9).map (fun r => r.tracker.stats.discardedAnchors) = .ok 1 := by
    decide +kernel
  obtain ⟨r, hr, -⟩ := map_eq_ok.mp hend
  obtain ⟨s, hs⟩ := replay_ok_iff.mpr ⟨r, hr⟩
  have hconserves := replay_conserves hs
  have hskipped : droppedRun.events.zipIdx.countP (droppedRun.callsSkipped Tracker.fewBuckets) = 1 := by decide +kernel
  have hdiscarded : droppedRun.events.zipIdx.countP droppedRun.discards = 1 := by decide
  refine ⟨s, hs, hconserves, hconserves.blocksExecuted, ?_, hconserves.signals, ?_, hconserves.threads⟩
  · rw [hconserves.calls, hskipped]
  · rw [hconserves.discardedBlocks, hdiscarded]

end Trace
end CallGraph
