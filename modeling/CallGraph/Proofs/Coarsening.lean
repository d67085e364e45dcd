/-
  CallGraph.Proofs.Coarsening — a bound on the depth of contexts only coarsens a replay.

  Two replays of a trace, one without a bound and one that bounds its chains to `n` functions, are at
  worlds that are the same but for the chains of sites, which are cut (`World.Coarsens`). So every
  thread takes the same transfers in both, and its states are equal without numbers. What the bounded
  replay has contexts and anchors for is what the other has them for, with chains cut, and the totals
  agree (`Replay.Coarsens`, kept by every event). Cut chains only fall together, so there are at
  most as many contexts and anchors (`Coarsens.contexts_le`, `Coarsens.anchors_le`).
  - `Trace.depth_bound_coarsens`: what two such replays have in common.
-/

import Mathlib.Combinatorics.Enumerative.DoubleCounting
import CallGraph.Proofs.Holdings
import CallGraph.Proofs.Unnumbered

namespace CallGraph

/-! ## Worlds -/

/-- The site in the chain of its first functions. -/
def Site.cut (n : Nat) (s : Site) : Site := { s with chain := s.chain.take n }

/-- The program with chains of at most `n` functions. -/
def Program.bounded (P : Program) (n : Nat) : Program := { P with depthLimit := some n }

/-- The worlds are the same but for chains, which are cut in the second one. -/
def World.Coarsens (n : Nat) (w w' : World) : Prop := ∀ u, (w u).Same (fun s s' => s' = s.cut n) (w' u)

section
variable {P P' : Program} {n : Nat} {sc sc' : Actor} {w w' : World} {e : Event} {sp : Addr} {place : Nat} {b : Block}

theorem Program.arrive_bounded (h : sc.Same (fun s s' => s' = s.cut n) sc') :
    Story.Match (OpenCall.Same fun s s' => s' = s.cut n) (fun s s' => s' = s.cut n) (P.arrive sp b sc)
      ((P.bounded n).arrive sp b sc') := by
  refine h.arrive (fun s s' hs => ?_) () () () ()
  rw [hs]
  rfl

/-- A block runs at the same site, with its chain cut. -/
theorem Program.site_bounded (hP : P.depthLimit = none) (h : sc.Same (fun s s' => s' = s.cut n) sc') :
    (P.bounded n).site sp place b sc' = (P.site sp place b sc).cut n := by
  rw [site, site, (arrive_bounded h).slots]
  simp only [Site.cut, cut, bounded, hP]

theorem World.Coarsens.play (h : Coarsens n w w') (hP : P.depthLimit = none) :
    (w.play P e = none ∧ w'.play (P.bounded n) e = none) ∨
      ∃ v v', w.play P e = some v ∧ w'.play (P.bounded n) e = some v' ∧ Coarsens n v v' := by
  refine play_match h rfl (fun tid sp place exit b passed _ => ?_) fun place u => ?_
  · have hu := h ⟨tid.toNat⟩
    exact ⟨Program.arrive_bounded hu, .some (Program.site_bounded hP hu), rfl⟩
  · refine Scene.Same.forget (h u) (fun s s' hs => ?_) fun s s' hs _ => hs
    rw [hs]
    rfl

end

/-! ## Tables -/

namespace Replay

variable {P : Program} {trace : Trace} {n : Nat} {r r' s s' : Replay} {w w' v v' : World}

/-- What the second replay has contexts and anchors for is what the first has them for, with chains cut. -/
structure Coarsens (n : Nat) (r r' : Replay) : Prop where
  totals : r'.tracker.totals = r.tracker.totals
  occupied : ∀ u site', r'.Occupies u site' → ∃ site, r.Occupies u site ∧ site' = site.cut n
  known : ∀ chain', r'.Knows chain' → ∃ chain, r.Knows chain ∧ chain' = chain.take n

theorem Coarsens.of_changes {occupied occupied' : ThreadId → Site → Prop} {known known' : List FnId → Prop}
    {totals totals' : Totals} (c : Changes r occupied known totals) (c' : Changes r' occupied' known' totals')
    (htotals : totals' = totals) (hoccupied : ∀ u site', occupied' u site' → ∃ site, occupied u site ∧ site' = site.cut n)
    (hknown : ∀ chain', known' chain' → ∃ chain, known chain ∧ chain' = chain.take n) : Coarsens n r r' := by
  refine ⟨by rw [c.totals, c'.totals, htotals], fun u site' hs => ?_, fun chain' hk => ?_⟩
  · obtain ⟨site, hs, e⟩ := hoccupied u site' ((c'.occupied ..).mp hs)
    exact ⟨site, (c.occupied ..).mpr hs, e⟩
  · obtain ⟨chain, hk, e⟩ := hknown chain' ((c'.known _).mp hk)
    exact ⟨chain, (c.known _).mpr hk, e⟩

/-- A block is counted as the same, and its site and its chain are cut. -/
theorem Coarsens.visit (m : Coarsens n r r') (hP : P.depthLimit = none) {pos : Position} {place : Nat}
    {exit : Option Nat} {d d' : BlockDecl} {id id' : BlockId} {r₁ r₁' : Replay} {a a' : AnchorId} {t t' : Tracker}
    {y y' : Anchor} (vis : Visited trace r pos place exit d id r₁ a t y s)
    (vis' : Visited trace r' pos place exit d' id' r₁' a' t' y' s') (h : Shows P r w) (h' : Shows (P.bounded n) r' w')
    (hw : World.Coarsens n w w') (hs : Shows P s v) (hs' : Shows (P.bounded n) s' v') (hv : World.Coarsens n v v')
    (o : r.tracker.InOrder) (o' : r'.tracker.InOrder) (hseated : r.Seated) (hseated' : r'.Seated) {b : Block}
    (hb : trace.toBlock d = .ok b) (hplace : P.block place = some b) : Coarsens n s s' := by
  have hd : d' = d := Option.some.inj (vis'.decl.symm.trans vis.decl)
  subst hd
  have hu := hw pos.thread
  -- The site of the one run is that of the other, cut.
  have hsite : (P.bounded n).site pos.sp place b (w' pos.thread) = (P.site pos.sp place b (w pos.thread)).cut n :=
    Program.site_bounded hP hu
  refine .of_changes (vis.changes h o hseated hb hplace) (vis'.changes h' o' hseated' hb hplace) ?_ ?_ ?_
  · have htransfer : (w' pos.thread).transfer (P.bounded n).blockOf (P.bounded n).tailCalls b pos.sp =
        (w pos.thread).transfer P.blockOf P.tailCalls b pos.sp := by
      refine hu.transfer fun s s' hs => ?_
      rw [hs]
      rfl
    -- Which functions wake up depends on the stacks alone, and these are the same in both runs.
    have hwakes : Tracker.wakes b.fn r'.tracker.functions s'.tracker.functions =
        Tracker.wakes b.fn r.tracker.functions s.tracker.functions :=
      h.wakes_congr h' hs hs' (fun u => (hw u).story.slots) (fun u => (hv u).story.slots) b.fn
    rw [m.totals, htransfer, hwakes]
    rfl
  · rintro u site' (hs | ⟨rfl, rfl⟩)
    · obtain ⟨site, hs, e⟩ := m.occupied u site' hs
      exact ⟨site, .inl hs, e⟩
    · exact ⟨_, .inr ⟨rfl, rfl⟩, hsite⟩
  · rintro chain' (hk | rfl)
    · obtain ⟨chain, hk, e⟩ := m.known chain' hk
      exact ⟨chain, .inl hk, e⟩
    · exact ⟨_, .inr rfl, congrArg Site.chain hsite⟩

/-- A signal is counted in both. -/
theorem Coarsens.signal (m : Coarsens n r r') (hseated : r.Seated) (hseated' : r'.Seated) {i : Nat} {tid : UInt32}
    {signal : Int32} (hplay : play trace r i (.signal tid signal) = .ok s)
    (hplay' : play trace r' i (.signal tid signal) = .ok s') : Coarsens n s s' :=
  .of_changes (play_signal hseated hplay) (play_signal hseated' hplay') (congrArg Totals.signal m.totals) m.occupied
    m.known

theorem Coarsens.signalReturn (m : Coarsens n r r') (h : r.tracker.Inv) (h' : r'.tracker.Inv) (hseated : r.Seated)
    (hseated' : r'.Seated) {i : Nat} {tid : UInt32} {signal : Int32}
    (hplay : play trace r i (.signalReturn tid signal) = .ok s)
    (hplay' : play trace r' i (.signalReturn tid signal) = .ok s') : Coarsens n s s' :=
  .of_changes (play_signalReturn h hseated hplay) (play_signalReturn h' hseated' hplay') m.totals m.occupied m.known

/-- A block that was dropped takes the same sites with it. -/
theorem Coarsens.discard (m : Coarsens n r r') (h : Shows P r w) (h' : Shows (P.bounded n) r' w') (hseated : r.Seated)
    (hseated' : r'.Seated) {i : Nat} {place : UInt32} (hplay : play trace r i (.discard place) = .ok s)
    (hplay' : play trace r' i (.discard place) = .ok s') : Coarsens n s s' := by
  refine .of_changes (play_discard h hseated hplay) (play_discard h' hseated' hplay') m.totals ?_ m.known
  rintro u site' ⟨hs, hne⟩
  obtain ⟨site, hsite, rfl⟩ := m.occupied u site' hs
  exact ⟨site, ⟨hsite, hne⟩, rfl⟩

/-! ## Sizes -/

/-- Each context of the second replay is for the cut chain of one of the first, and a chain is cut in one way. -/
theorem Coarsens.contexts_le (m : Coarsens n r r') (hfiled : r'.tracker.contexts.Filed) :
    r'.tracker.contexts.size ≤ r.tracker.contexts.size := by
  have hlt : ∀ {r : Replay} {i : Nat}, i < r.tracker.contexts.size ↔ ∃ x, r.tracker.contexts.get? ⟨i⟩ = some x :=
    fun {r i} => ⟨fun hi => ⟨_, Array.getElem?_eq_getElem hi⟩,
      fun ⟨x, hx⟩ => (Array.getElem?_eq_some_iff.mp hx).1⟩
  rw [← Finset.card_range r'.tracker.contexts.size, ← Finset.card_range r.tracker.contexts.size]
  refine Finset.card_le_card_of_forall_subsingleton (fun i' i => ∃ x' x, r'.tracker.contexts.get? ⟨i'⟩ = some x' ∧
    r.tracker.contexts.get? ⟨i⟩ = some x ∧ x'.chain = x.chain.take n) (fun i' hi' => ?_) fun i hi => ?_
  · obtain ⟨x', hx'⟩ := hlt.mp (Finset.mem_range.mp hi')
    obtain ⟨chain, ⟨c, x, hx, rfl⟩, e⟩ := m.known x'.chain ⟨_, x', hx', rfl⟩
    exact ⟨c.num, Finset.mem_range.mpr (hlt.mpr ⟨x, hx⟩), x', x, hx', hx, e⟩
  · rintro j ⟨-, y', x, hy', hx, ey⟩ k ⟨-, z', z, hz', hz, ez⟩
    cases hx.symm.trans hz
    exact congrArg ContextId.num (hfiled.distinct _ _ _ _ hy' hz' (ey.trans ez.symm))

/-- Each anchor of the second replay is for the cut site of one of the first. -/
theorem Coarsens.anchors_le (m : Coarsens n r r') (h : Shows P r w) (o : r.tracker.InOrder) (o' : r'.tracker.InOrder)
    (hseated : r'.Seated) : r'.tracker.anchors.size ≤ r.tracker.anchors.size := by
  rw [o.counted, o'.counted]
  refine Finset.card_le_card_of_forall_subsingleton (fun i' i => ∃ u site, r'.Sits u ⟨i'⟩ (Site.cut n site) ∧
    r.Sits u ⟨i⟩ site) (fun i' hi' => ?_) fun i hi => ?_
  · obtain ⟨y', hy'⟩ := Directory.mem_ids.mp hi'
    obtain ⟨site', hs'⟩ := hseated _ y' hy'
    obtain ⟨site, ⟨a, hs⟩, rfl⟩ := m.occupied _ site' ⟨_, hs'⟩
    obtain ⟨y, -, hy, -⟩ := id hs
    exact ⟨a.num, Directory.mem_ids.mpr ⟨y, hy⟩, _, site, hs', hs⟩
  · rintro j ⟨-, u, site, hj, hi⟩ k ⟨-, u', site', hk, hi'⟩
    obtain ⟨rfl, rfl⟩ := h.sits_unique hi hi'
    exact congrArg AnchorId.num (sits_single o'.contexts o'.anchors hj hk)

end Replay

/-! ## Two replays -/

/-- The settings with another bound on the depth of contexts. -/
def Config.withDepth (config : Config) (depth : Option UInt64) : Config := { config with contextDepth := depth }

/-- The second summary is of a run that kept no more apart than the first, and counted the same. -/
structure Summary.Coarsens (s s' : Summary) : Prop where
  contexts : s'.contexts ≤ s.contexts
  anchors : s'.anchors ≤ s.anchors
  calls : s'.calls = s.calls
  entries : s'.entries = s.entries
  frames : s'.stats.calls = s.stats.calls
  returns : s'.stats.returns = s.stats.returns
  promotedCalls : s'.stats.promotedCalls = s.stats.promotedCalls
  returnsAsJumps : s'.stats.returnsAsJumps = s.stats.returnsAsJumps
  emulatedCalls : s'.stats.emulatedCalls = s.stats.emulatedCalls
  signals : s'.stats.signals = s.stats.signals

namespace Trace

variable {trace : Trace} {config : Config} {n : UInt64} {i : Nat} {r r' : Replay}

/-- After any number of events the world of the bounded replay is coarser, or both stopped by then. -/
theorem worldAfter_coarsens (trace : Trace) (config : Config) (n : UInt64) (i : Nat) :
    (trace.worldAfter (config.withDepth none) i = none ∧ trace.worldAfter (config.withDepth (some n)) i = none) ∨
      ∃ w w', trace.worldAfter (config.withDepth none) i = some w ∧
        trace.worldAfter (config.withDepth (some n)) i = some w' ∧ World.Coarsens n.toNat w w' :=
  worldAfter_related rfl (fun _ => ⟨.fresh, .none, rfl⟩) (fun _ _ _ _ _ _ h => h.play rfl) i

theorem after_coarser (hvalid : trace.check = .ok ()) (hr : trace.after (config.withDepth none) i = .ok r)
    (hr' : trace.after (config.withDepth (some n)) i = .ok r') :
    ∃ w w', trace.worldAfter (config.withDepth none) i = some w ∧
      trace.worldAfter (config.withDepth (some n)) i = some w' ∧
      Replay.Shows (trace.program (config.withDepth none)) r w ∧
      Replay.Shows ((trace.program (config.withDepth none)).bounded n.toNat) r' w' ∧ World.Coarsens n.toNat w w' := by
  obtain ⟨w, hw, h⟩ := after_eq hvalid (config_ok hr) hr
  obtain ⟨w', hw', h'⟩ := after_eq hvalid (config_ok hr') hr'
  obtain ⟨hnone, -⟩ | ⟨v, v', hv, hv', hcoarsens⟩ := worldAfter_coarsens trace config n i
  · rw [hw] at hnone
    cases hnone
  · rw [hw] at hv
    rw [hw'] at hv'
    cases hv
    cases hv'
    exact ⟨w, w', hw, hw', h, h', hcoarsens⟩

theorem start_coarsens (hr : Replay.start trace (config.withDepth none) = .ok r)
    (hr' : Replay.start trace (config.withDepth (some n)) = .ok r') : Replay.Coarsens n.toNat r r' := by
  obtain ⟨C, A, F, -, -, rfl, -⟩ := Replay.start_eq hr
  obtain ⟨C', A', F', hC', hA', rfl, -⟩ := Replay.start_eq hr'
  obtain ⟨-, -, hnone⟩ := ContextTable.ofBuckets_filed hC'
  obtain ⟨-, -, hnone'⟩ := Directory.ofBuckets_filed hA'
  refine ⟨rfl, fun u site hs => ?_, fun chain hk => ?_⟩
  · obtain ⟨a, y, -, hy, -⟩ := hs
    exact absurd hy (hnone' a y)
  · obtain ⟨c, x, hx, -⟩ := hk
    exact absurd hx (hnone c x)

/-- An event keeps the bounded replay coarser. -/
theorem play_coarsens (hvalid : trace.check = .ok ()) {e : Event} (he : trace.events[i]? = some e)
    (hr : trace.after (config.withDepth none) i = .ok r) (hr' : trace.after (config.withDepth (some n)) i = .ok r')
    (m : Replay.Coarsens n.toNat r r') {s s' : Replay} (hs : Replay.play trace r i e = .ok s)
    (hs' : Replay.play trace r' i e = .ok s') : Replay.Coarsens n.toNat s s' := by
  obtain ⟨w, w', -, -, h, h', hw⟩ := after_coarser hvalid hr hr'
  have hseated := after_seated hvalid hr
  have hseated' := after_seated hvalid hr'
  cases e with
  | block tid sp place exit =>
    obtain ⟨hblocks, -⟩ := check_eq_ok hvalid
    have hnext : trace.after (config.withDepth none) (i + 1) = .ok s := by
      rw [after_succ he, hr]
      exact hs
    have hnext' : trace.after (config.withDepth (some n)) (i + 1) = .ok s' := by
      rw [after_succ he, hr']
      exact hs'
    obtain ⟨v, v', -, -, h₁, h₁', hv⟩ := after_coarser hvalid hnext hnext'
    obtain ⟨d, b, id, r₁, a, t, y, vis, hb, hP⟩ := Replay.play_visited hblocks hs
    obtain ⟨d', b', id', r₁', a', t', y', vis', -⟩ := @Replay.play_visited _ _ _ config hblocks _ _ _ _ _ hs'
    exact m.visit rfl vis vis' h h' hw h₁ h₁' hv (after_inOrder hr) (after_inOrder hr') hseated hseated' hb hP
  | signal tid signal => exact m.signal hseated hseated' hs hs'
  | signalReturn tid signal => exact m.signalReturn h.inv h'.inv hseated hseated' hs hs'
  | discard place => exact m.discard h h' hseated hseated' hs hs'

/-- After any number of events the bounded replay keeps no more apart than the other. -/
theorem after_coarsens (hvalid : trace.check = .ok ()) (hr : trace.after (config.withDepth none) i = .ok r)
    (hr' : trace.after (config.withDepth (some n)) i = .ok r') : Replay.Coarsens n.toNat r r' :=
  after_induction₂ (fun _ _ => start_coarsens)
    (fun _ _ _ _ _ _ he hr hr' m hs hs' => play_coarsens hvalid he hr hr' m hs hs') hr hr'

/-- Bounds of at least one function are as good as none. -/
theorem usable_withDepth (config : Config) (hn : n ≠ 0) :
    (config.withDepth (some n)).Usable ↔ (config.withDepth none).Usable := by
  have hsome : (config.withDepth (some n)).contextDepth ≠ some 0 := fun e => hn (Option.some.inj e)
  have hnone : (config.withDepth none).contextDepth ≠ some 0 := nofun
  rw [Config.Usable, Config.Usable, Config.check_eq_ok_iff, Config.check_eq_ok_iff]
  exact and_congr_left' (and_congr_left' (iff_of_true hsome hnone))

/-- The summaries of two replays of which one keeps no more apart than the other. -/
theorem replay_coarsens (hvalid : trace.check = .ok ()) {s s' : Summary}
    (hs : trace.replay (config.withDepth none) = .ok s) (hs' : trace.replay (config.withDepth (some n)) = .ok s') :
    s.Coarsens s' := by
  obtain ⟨r, hr, hclose⟩ := after_of_replay hs
  obtain ⟨r', hr', hclose'⟩ := after_of_replay hs'
  obtain ⟨w, w', -, -, h, h', -⟩ := after_coarser hvalid hr hr'
  have m := after_coarsens hvalid hr hr'
  have o := after_inOrder hr
  have o' := after_inOrder hr'
  obtain ⟨hcontexts, hanchors, htotals, hreturns⟩ := Replay.close_totals h o hclose
  obtain ⟨hcontexts', hanchors', htotals', hreturns'⟩ := Replay.close_totals h' o' hclose'
  have hsame := m.totals
  rw [htotals, htotals'] at hsame
  simp only [Totals.mk.injEq] at hsame
  obtain ⟨hcalls, hentries, hframes, hpromoted, hjumps, hemulated, hsignals⟩ := hsame
  refine ⟨?_, ?_, hcalls, hentries, hframes, ?_, hpromoted, hjumps, hemulated, hsignals⟩
  · rw [hcontexts, hcontexts']
    exact m.contexts_le o'.contexts
  · rw [hanchors, hanchors']
    exact m.anchors_le h o o' (after_seated hvalid hr')
  · rw [hreturns, hreturns', hframes]

/-- Of a replay without a bound on the depth of contexts and a replay of the same trace with a bound of at least one
function, both come to a summary or none does, and both get equally far. After any number of events all
thread states are equal but for numbers, and a block that the one bills to a chain is billed by the other to the
first functions of the chain. In the end they counted the same, with at most as many contexts and anchors. -/
theorem depth_bound_coarsens (hvalid : trace.check = .ok ()) (config : Config) (hn : n ≠ 0) :
    ((∃ s, trace.replay (config.withDepth none) = .ok s) ↔ ∃ s, trace.replay (config.withDepth (some n)) = .ok s) ∧
      (∀ i, (∃ r, trace.after (config.withDepth none) i = .ok r) ↔
        ∃ r, trace.after (config.withDepth (some n)) i = .ok r) ∧
      (∀ i r r', trace.after (config.withDepth none) i = .ok r → trace.after (config.withDepth (some n)) i = .ok r' →
        (∀ u, (r'.tracker.state u).unnumbered = (r.tracker.state u).unnumbered) ∧
        ∀ j tid sp place exit, i = j + 1 → trace.events[j]? = some (.block tid sp place exit) →
          ∃ chain, r.billed = some chain ∧ r'.billed = some (chain.take n.toNat)) ∧
      ∀ s s', trace.replay (config.withDepth none) = .ok s → trace.replay (config.withDepth (some n)) = .ok s' →
        s.Coarsens s' := by
  have hworlds : ∀ i, (∃ w, trace.worldAfter (config.withDepth none) i = some w) ↔
      ∃ w, trace.worldAfter (config.withDepth (some n)) i = some w := by
    intro i
    obtain ⟨hw, hw'⟩ | ⟨w, w', hw, hw', -⟩ := worldAfter_coarsens trace config n i
    · rw [hw, hw']
    · exact iff_of_true ⟨w, hw⟩ ⟨w', hw'⟩
  obtain ⟨hreplay, hreach⟩ := replay_together hvalid hvalid (usable_withDepth config hn) rfl hworlds
  refine ⟨hreplay, hreach, fun i r r' hr hr' => ⟨fun u => ?_, fun j tid sp place exit hi he => ?_⟩,
    fun s s' hs hs' => replay_coarsens hvalid hs hs'⟩
  · obtain ⟨w, w', -, -, h, h', hw⟩ := after_coarser hvalid hr hr'
    obtain ⟨p, hp, hsame⟩ := h.told u
    obtain ⟨p', hp', hsame'⟩ := h'.told u
    refine hp.same hp' ?_
    calc p'.unnumbered = (w' u).unnumbered := hsame'.unnumbered.symm
      _ = (w u).unnumbered := (hw u).unnumbered
      _ = p.unnumbered := hsame.unnumbered
  · subst hi
    obtain ⟨w, w', hw, hw', -, -, hcoarsens⟩ := after_coarser hvalid hr hr'
    refine ⟨_, after_billed hvalid (config_ok hr) he hr hw, ?_⟩
    rw [after_billed hvalid (config_ok hr') he hr' hw', (hcoarsens _).story.slots]
    rfl

/-- `main` calls `help` itself and through `work`. -/
def twoCallersRun : Trace where
  objects := #["program"]
  functions := #[{ name := "main", object := 0 }, { name := "work", object := 0 }, { name := "help", object := 0 }]
  blocks := #[
    { addr := ⟨100⟩, function := 0, isEntry := true, exits := [{ kind := .call, size := 5 }] },
    { addr := ⟨105⟩, function := 0, exits := [{ kind := .call, size := 5 }] },
    { addr := ⟨200⟩, function := 1, isEntry := true, exits := [{ kind := .call, size := 5 }] },
    { addr := ⟨300⟩, function := 2, isEntry := true, exits := [{ kind := .ret, size := 1 }] }]
  events := [.block 1 ⟨1000⟩ 0 none, .block 1 ⟨990⟩ 3 none, .block 1 ⟨1000⟩ 1 none, .block 1 ⟨990⟩ 2 none,
    .block 1 ⟨980⟩ 3 none]

theorem depth_bound_coarsens_twoCallersRun :
    ∃ r r' s s', twoCallersRun.after (Tracker.fewBuckets.withDepth none) 5 = .ok r ∧
      r.billed = some [⟨2⟩, ⟨1⟩, ⟨0⟩] ∧ twoCallersRun.after (Tracker.fewBuckets.withDepth (some 1)) 5 = .ok r' ∧
      r'.billed = some [⟨2⟩] ∧ twoCallersRun.replay (Tracker.fewBuckets.withDepth none) = .ok s ∧
      twoCallersRun.replay (Tracker.fewBuckets.withDepth (some 1)) = .ok s' ∧ s.Coarsens s' := by
  have hvalid : twoCallersRun.check = .ok () := by decide +kernel
  obtain ⟨hreplay, hreach, hsame, hsummaries⟩ :=
    depth_bound_coarsens hvalid Tracker.fewBuckets (by decide : (1 : UInt64) ≠ 0)
  have hbilled : (twoCallersRun.after (Tracker.fewBuckets.withDepth none) 5).map Replay.billed =
      .ok (some [⟨2⟩, ⟨1⟩, ⟨0⟩]) := by decide +kernel
  obtain ⟨r, hr, hbilled⟩ := map_eq_ok.mp hbilled
  obtain ⟨r', hr'⟩ := (hreach 5).mp ⟨r, hr⟩
  obtain ⟨chain, hchain, hchain'⟩ := (hsame 5 r r' hr hr').2 4 1 ⟨980⟩ 3 none rfl rfl
  rw [hbilled] at hchain
  cases hchain
  obtain ⟨s, hs⟩ := replay_ok_iff.mpr ⟨r, hr⟩
  obtain ⟨s', hs'⟩ := hreplay.mp ⟨s, hs⟩
  exact ⟨r, r', s, s', hr, hbilled, hr', hchain', hs, hs', hsummaries s s' hs hs'⟩

end Trace
end CallGraph
