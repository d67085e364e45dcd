/-
  CallGraph.Proofs.Books — arcs, tallies and counts as counts of visits.

  What holds of the contexts and anchors of a replay (`ChainsBooked`, `SitesBooked`) holds of the rest
  that it keeps: an open arc is a pair of sites with a call between them, the tally of a context counts
  the visits and the sites of its chain, and the counts are counts of visits. `Books` puts all of this
  together; a visit enters itself in the books (`Books.visit`) and a signal only counts
  (`Books.signal`, `Books.signalReturn`).
-/

import CallGraph.Proofs.Booking
import CallGraph.Proofs.Replaying
import CallGraph.Proofs.Tallying

namespace CallGraph.Replay

variable {P : Program} {trace : Trace} {r r₁ r' : Replay} {w : World} {u : ThreadId} {visits : List Visit} {site : Site}
  {a : AnchorId} {key : AnchorKey} {sc : Scene ContextId Kept AnchorId} {x : Transfer} {skip : Bool} {v : Visit}

/-! ## Arcs -/

/-- The open arcs are the ways that calls took, and every call was counted. -/
structure ArcsBooked (r : Replay) (visits : List Visit) : Prop where
  numbered : r.tracker.ledger.Numbered
  arcCount : r.tracker.ledger.arcCount = distinct (visits.filterMap Visit.arc)
  totalCalls : r.tracker.ledger.totalCalls = visits.countP fun v => v.source.isSome
  opened : ∀ v ∈ visits, ∀ s n, v.source = some (s, n) → ∃ i j, r.Sits v.thread i s ∧ r.Sits v.thread j v.site ∧
    { source := i, exit := n, target := j } ∈ r.tracker.ledger.arcs.map Prod.fst
  called : ∀ arc ∈ r.tracker.ledger.arcs.map Prod.fst, ∃ v ∈ visits, ∃ s, v.source = some (s, arc.exit) ∧
    r.Sits v.thread arc.source s ∧ r.Sits v.thread arc.target v.site

theorem ArcsBooked.open_iff (h : ArcsBooked r visits) (m : Bills r r' u site a key) {i : AnchorId} {s : Site}
    (hi : r.Sits u i s) (n : Nat) :
    { source := i, exit := n, target := a } ∈ r.tracker.ledger.arcs.map Prod.fst ↔
      (u, s, n, site) ∈ visits.filterMap Visit.arc := by
  rw [List.mem_filterMap]
  constructor
  · intro harc
    obtain ⟨v, hv, s', hs', hfrom, hto⟩ := h.called _ harc
    obtain ⟨rfl, rfl⟩ := m.unique _ _ _ _ _ (m.old hi) (m.old hfrom)
    obtain ⟨-, rfl⟩ := m.unique _ _ _ _ _ m.me (m.old hto)
    exact ⟨v, hv, by rw [Visit.arc, hs']; rfl⟩
  · intro hv
    obtain ⟨v, hv, harc⟩ := hv
    obtain ⟨⟨s', n'⟩, hs', harc⟩ := Option.map_eq_some_iff.mp harc
    simp only [Prod.mk.injEq] at harc
    obtain ⟨rfl, rfl, rfl, rfl⟩ := harc
    obtain ⟨i', j, hfrom, hto, hmem⟩ := h.opened v hv _ _ hs'
    rw [m.single _ _ _ _ (m.old hi) (m.old hfrom), m.single _ _ _ _ m.me (m.old hto)]
    exact hmem

/-- What was open is open as long as no arc is closed. -/
theorem ArcsBooked.opened_of_subset (h : ArcsBooked r visits) (m : Bills r r' u site a key) {l : List Arc}
    (hl : ∀ arc ∈ r.tracker.ledger.arcs.map Prod.fst, arc ∈ l) : ∀ v ∈ visits, ∀ s n, v.source = some (s, n) →
      ∃ i j, r'.Sits v.thread i s ∧ r'.Sits v.thread j v.site ∧ { source := i, exit := n, target := j } ∈ l := by
  intro v hv s n hs
  obtain ⟨i, j, hi, hj, harc⟩ := h.opened v hv s n hs
  exact ⟨i, j, m.old hi, m.old hj, hl _ harc⟩

theorem ArcsBooked.called_before (h : ArcsBooked r visits) (m : Bills r r' u site a key) (v : Visit) :
    ∀ arc ∈ r.tracker.ledger.arcs.map Prod.fst, ∃ v' ∈ v :: visits, ∃ s, v'.source = some (s, arc.exit) ∧
      r'.Sits v'.thread arc.source s ∧ r'.Sits v'.thread arc.target v'.site := by
  intro arc harc
  obtain ⟨v', hv', s, hs, hfrom, hto⟩ := h.called arc harc
  exact ⟨v', List.mem_cons_of_mem _ hv', s, hs, m.old hfrom, m.old hto⟩

/-- A visit that called over an arc. -/
theorem ArcsBooked.over (h : ArcsBooked r visits) (m : Bills r r' u site a key) (hthread : v.thread = u)
    (hsite : v.site = site) {s : Site} {n : Nat} (hv : v.source = some (s, n)) {i : AnchorId} (hi : r.Sits u i s)
    (hcalls : r.tracker.ledger.Calls r'.tracker.ledger { source := i, exit := n, target := a }) :
    ArcsBooked r' (v :: visits) := by
  have harc : v.arc = some (u, s, n, site) := by
    rw [Visit.arc, hv, hthread, hsite]
    rfl
  refine ⟨hcalls.numbered, ?_, ?_, fun v' hv' s' k hs' => ?_, fun arc harc' => ?_⟩
  · -- An arc counts once, with the first visit over it.
    rw [hcalls.arcCount, List.filterMap_cons_some harc]
    split
    · rename_i hopen
      rw [distinct_of_mem ((h.open_iff m hi n).mp hopen), h.arcCount]
    · rename_i hclosed
      rw [distinct_of_not_mem fun hmem => hclosed ((h.open_iff m hi n).mpr hmem), h.arcCount]
  · rw [hcalls.totalCalls, h.totalCalls, List.countP_cons_of_pos (by rw [hv]; rfl)]
  · obtain rfl | hv' := List.mem_cons.mp hv'
    · rw [hv] at hs'
      cases hs'
      rw [hthread, hsite]
      exact ⟨i, a, m.old hi, m.me, (hcalls.arcs _).mpr (.inl rfl)⟩
    · exact h.opened_of_subset m (fun arc harc => (hcalls.arcs arc).mpr (.inr harc)) v' hv' s' k hs'
  · obtain rfl | harc' := (hcalls.arcs arc).mp harc'
    · refine ⟨v, List.mem_cons_self .., s, hv, ?_, ?_⟩
      · rw [hthread]
        exact m.old hi
      · rw [hthread, hsite]
        exact m.me
    · exact h.called_before m v arc harc'

/-- A visit that called over no arc. -/
theorem ArcsBooked.aside (h : ArcsBooked r visits) (m : Bills r r' u site a key) (hv : v.source = none)
    (hledger : r.tracker.ledger.SameCalls r'.tracker.ledger) : ArcsBooked r' (v :: visits) := by
  have harc : v.arc = none := by
    rw [Visit.arc, hv]
    rfl
  refine ⟨hledger.numbered h.numbered, ?_, ?_, fun v' hv' s n hs => ?_, ?_⟩
  · rw [Ledger.arcCount, hledger.calls, List.filterMap_cons_none harc]
    exact h.arcCount
  · rw [Ledger.totalCalls, hledger.calls, List.countP_cons_of_neg (by rw [hv]; exact Bool.false_ne_true)]
    exact h.totalCalls
  · obtain rfl | hv' := List.mem_cons.mp hv'
    · rw [hv] at hs
      cases hs
    · rw [hledger.arcs]
      exact h.opened_of_subset m (fun _ harc => harc) v' hv' s n hs
  · rw [hledger.arcs]
    exact h.called_before m v

theorem ArcsBooked.visit (h : ArcsBooked r visits) (m : Bills r r' u site a key)
    (e : r.tracker.Entered key sc x skip a r'.tracker) (hthread : v.thread = u) (hsite : v.site = site)
    (hsource : Option.Rel (fun p q => r.Sits u p.1 q.1 ∧ q.2 = p.2)
      (if (x.enters && !skip) = true then sc.callSource r.tracker.blockOf else none) v.source) :
    ArcsBooked r' (v :: visits) := by
  have hledger := e.ledger
  split at hledger
  · rename_i hcall
    obtain ⟨i, n, hi, hsame⟩ := hledger
    rw [if_pos hcall, hi] at hsource
    obtain ⟨hnone, -⟩ | ⟨p, ⟨s, n'⟩, hp, hv, hs, hn⟩ := rel_cases hsource
    · cases hnone
    · cases hp
      cases hn
      exact h.over m hthread hsite hv hs ((Ledger.call_calls h.numbered _).same hsame)
  · rename_i hcall
    rw [if_neg hcall] at hsource
    obtain ⟨-, hv⟩ | ⟨p, q, hp, -⟩ := rel_cases hsource
    · exact h.aside m hv hledger
    · cases hp

/-! ## Tallies -/

/-- A tally counts the visits in a chain, and the sites of threads that they were at. -/
structure Tallied (r : Replay) (visits : List Visit) (chain : List FnId) (t : Tally) : Prop where
  executions : t.executions = visits.countP (Visit.isIn chain)
  live : ∀ a, a ∈ t.live ↔ ∃ u s, r.Sits u a s ∧ s.chain = chain
  blocks : t.blocks = distinct ((visits.filter (Visit.isIn chain)).map Visit.seat)

theorem SitesBooked.tallied_nothing (h : SitesBooked r visits) {chain : List FnId}
    (hchain : chain ∉ visits.map fun v => v.site.chain) : Tallied r visits chain {} := by
  have hnone : ∀ v ∈ visits, ¬Visit.isIn chain v = true := by
    intro v hv e
    exact hchain (List.mem_map.mpr ⟨v, hv, of_decide_eq_true e⟩)
  refine ⟨(List.countP_eq_zero.mpr hnone).symm, fun a => iff_of_false List.not_mem_nil ?_, ?_⟩
  · rintro ⟨u, s, hs, rfl⟩
    obtain ⟨v, hv, hseat⟩ := List.mem_map.mp ((h.mem u s).mp ⟨a, hs⟩)
    cases hseat
    exact hchain (List.mem_map.mpr ⟨v, hv, rfl⟩)
  · rw [List.filter_eq_nil_iff.mpr hnone]
    rfl

/-- A visit in another chain is none of the tally's business. -/
theorem Tallied.aside {chain : List FnId} {t : Tally} (h : Tallied r visits chain t) (m : Bills r r' u site a key)
    (hsite : v.site = site) (hchain : site.chain ≠ chain) : Tallied r' (v :: visits) chain t := by
  have hv : ¬Visit.isIn chain v = true := fun e => hchain (hsite ▸ of_decide_eq_true e)
  refine ⟨?_, fun b => ?_, ?_⟩
  · rw [List.countP_cons_of_neg hv]
    exact h.executions
  · rw [h.live]
    constructor
    · intro hb
      obtain ⟨u', s, hs, hc⟩ := hb
      exact ⟨u', s, m.old hs, hc⟩
    · intro hb
      obtain ⟨u', s, hs, hc⟩ := hb
      obtain hs | ⟨-, -, rfl⟩ := (m.sits ..).mp hs
      · exact ⟨u', s, hs, hc⟩
      · exact absurd hc hchain
  · rw [List.filter_cons_of_neg hv]
    exact h.blocks

/-- The anchor was billed before exactly if the thread was at the site before. -/
theorem Tallied.billed_iff {t : Tally} (h : Tallied r visits site.chain t) (m : Bills r r' u site a key)
    (hsites : SitesBooked r visits) :
    a ∈ t.live ↔ (u, site) ∈ (visits.filter (Visit.isIn site.chain)).map Visit.seat := by
  rw [h.live]
  constructor
  · intro ha
    obtain ⟨u', s, hs, -⟩ := ha
    obtain ⟨rfl, rfl⟩ := m.unique _ _ _ _ _ (m.old hs) m.me
    obtain ⟨v', hv', hseat'⟩ := List.mem_map.mp ((hsites.mem u' s).mp ⟨a, hs⟩)
    refine List.mem_map.mpr ⟨v', List.mem_filter.mpr ⟨hv', ?_⟩, hseat'⟩
    cases hseat'
    exact decide_eq_true rfl
  · intro hmem
    obtain ⟨v', hv', hseat'⟩ := List.mem_map.mp hmem
    obtain ⟨b, hb⟩ := (hsites.mem u site).mpr (List.mem_map.mpr ⟨v', List.mem_of_mem_filter hv', hseat'⟩)
    rw [m.single _ _ _ _ m.me (m.old hb)]
    exact ⟨u, site, hb, rfl⟩

theorem Tallied.record {t : Tally} (h : Tallied r visits site.chain t) (m : Bills r r' u site a key)
    (hsites : SitesBooked r visits) (hthread : v.thread = u) (hsite : v.site = site) :
    Tallied r' (v :: visits) site.chain (t.record a) := by
  have hv : Visit.isIn site.chain v = true := decide_eq_true (congrArg Site.chain hsite)
  have hseat : v.seat = (u, site) := by rw [Visit.seat, hthread, hsite]
  refine ⟨?_, fun b => ?_, ?_⟩
  · rw [List.countP_cons_of_pos hv, ← h.executions]
    rfl
  · rw [Tally.mem_record, h.live]
    constructor
    · rintro (rfl | ⟨u', s, hs, hc⟩)
      · exact ⟨u, site, m.me, rfl⟩
      · exact ⟨u', s, m.old hs, hc⟩
    · intro hb
      obtain ⟨u', s, hs, hc⟩ := hb
      obtain hs | ⟨-, rfl, -⟩ := (m.sits ..).mp hs
      · exact .inr ⟨u', s, hs, hc⟩
      · exact .inl rfl
  · rw [List.filter_cons_of_pos hv, List.map_cons, hseat]
    rw [Tally.blocks_record, List.contains_eq_mem]
    by_cases ha : a ∈ t.live
    · rw [distinct_of_mem ((h.billed_iff m hsites).mp ha), ← h.blocks, decide_eq_true ha]
      rfl
    · rw [distinct_of_not_mem fun hmem => ha ((h.billed_iff m hsites).mpr hmem), ← h.blocks, decide_eq_false ha]
      rfl

/-- Every context has a tally for its chain. -/
structure TalliesBooked (r : Replay) (visits : List Visit) : Prop where
  total : r.hotspots.total = visits.length
  tallied : ∀ c x, r.tracker.contexts.get? c = some x →
    ∃ t, r.hotspots.tallies.get? c.num = some t ∧ Tallied r visits x.chain t

/-- The tally that a visit is recorded in counted the visits so far. -/
theorem TalliesBooked.before (h : TalliesBooked r visits) (hshows : Shows P r w) (m : Bills r r' u site a key)
    (hchains : ChainsBooked r.tracker.contexts visits) (hsites : SitesBooked r visits)
    (hfiled : r'.tracker.contexts.Filed) :
    Tallied r visits site.chain ((r.hotspots.tallies.get? key.context.num).getD {}) := by
  obtain ⟨y, hy, hchain⟩ := m.context
  cases hget : r.tracker.contexts.get? key.context with
  | some y₀ =>
    have hy₀ := m.kept.kept _ _ hget
    rw [hy] at hy₀
    cases hy₀
    obtain ⟨t, ht, htallied⟩ := h.tallied _ _ hget
    rw [ht, ← hchain]
    exact htallied
  | none =>
    have hnone : r.hotspots.tallies.get? key.context.num = none := by
      rw [Option.eq_none_iff_forall_not_mem]
      intro t ht
      obtain ⟨z, hz⟩ := hshows.ranked _ (SortedMap.mem_of_get? ht)
      rw [hget] at hz
      cases hz
    rw [hnone]
    refine hsites.tallied_nothing fun hmem => ?_
    obtain ⟨d, z, hz, hc⟩ := (hchains.mem site.chain).mpr hmem
    obtain rfl := hfiled.distinct _ _ _ _ hy (m.kept.kept _ _ hz) (hchain.trans hc.symm)
    rw [hget] at hz
    cases hz

theorem TalliesBooked.visit (h : TalliesBooked r visits) (hshows : Shows P r w) (m : Bills r r' u site a key)
    (hchains : ChainsBooked r.tracker.contexts visits) (hsites : SitesBooked r visits)
    (e : r.tracker.Entered key sc x skip a r'.tracker) (hhotspots : r'.hotspots = r.hotspots.record key.context a)
    (hthread : v.thread = u) (hsite : v.site = site) : TalliesBooked r' (v :: visits) := by
  obtain ⟨hfiled, hC⟩ := e.contexts
  obtain ⟨y, hy, hchain⟩ := m.context
  refine ⟨?_, fun c z hz => ?_⟩
  · rw [hhotspots, List.length_cons, ← h.total]
    rfl
  · have hget : r'.hotspots.tallies.get? c.num = if c.num = key.context.num then
        some (((r.hotspots.tallies.get? key.context.num).getD {}).record a) else r.hotspots.tallies.get? c.num := by
      rw [hhotspots, Hotspots.record, SortedMap.get?_insert]
    rw [hget]
    by_cases hc : c = key.context
    · subst hc
      rw [hy] at hz
      cases hz
      rw [if_pos rfl, hchain]
      exact ⟨_, rfl, (h.before hshows m hchains hsites hfiled).record m hsites hthread hsite⟩
    · have hnum : c.num ≠ key.context.num := fun hn => hc (congrArg ContextId.mk hn)
      rw [if_neg hnum]
      have hz₀ : r.tracker.contexts.get? c = some z := by
        obtain hC | hadds := hC
        · rw [← hC]
          exact hz
        · exact (hadds.old c z hz).resolve_left hc
      obtain ⟨t, ht, htallied⟩ := h.tallied c z hz₀
      -- Chains have one number each, so the visit is none of another context.
      refine ⟨t, ht, htallied.aside m hsite fun hsame => hc ?_⟩
      exact hfiled.distinct _ _ _ _ hz hy (hsame.symm.trans hchain.symm)

/-! ## Counts -/

/-- What was counted are visits of the kind, and signals. -/
structure StatsBooked (s : Stats) (visits : List Visit) (signals : Nat) : Prop where
  blocksExecuted : s.blocksExecuted = visits.length
  calls : s.calls = visits.countP fun v => v.transfer.enters
  promotedCalls : s.promotedCalls = visits.countP fun v => v.transfer.promoted
  returnsAsJumps : s.returnsAsJumps = visits.countP fun v => v.transfer.returnAsJump
  emulatedCalls : s.emulatedCalls = visits.countP fun v => v.transfer.emulated
  lruHits : s.lruHits = visits.countP fun v => v.hit
  signals : s.signals = signals

theorem countP_cons_toNat {α : Type} (p : α → Bool) (x : α) (l : List α) :
    (x :: l).countP p = l.countP p + (p x).toNat := by
  cases h : p x with
  | false => exact List.countP_cons_of_neg (by rw [h]; exact Bool.false_ne_true)
  | true => exact List.countP_cons_of_pos h

theorem StatsBooked.visit {t t' : Tracker} {n : Nat} (h : StatsBooked t.stats visits n)
    (e : t.Entered key sc x skip a t') (htransfer : v.transfer = x)
    (hhit : v.hit = Tracker.followed t.anchors sc.last key) : StatsBooked t'.stats (v :: visits) n := by
  have hcounts := e.stats
  refine ⟨?_, ?_, ?_, ?_, ?_, ?_, hcounts.signals.trans h.signals⟩
  · rw [hcounts.blocksExecuted, h.blocksExecuted, List.length_cons]
  · rw [hcounts.calls, h.calls, countP_cons_toNat, htransfer]
  · rw [hcounts.promotedCalls, h.promotedCalls, countP_cons_toNat, htransfer]
  · rw [hcounts.returnsAsJumps, h.returnsAsJumps, countP_cons_toNat, htransfer]
  · rw [hcounts.emulatedCalls, h.emulatedCalls, countP_cons_toNat, htransfer]
  · rw [hcounts.lruHits, h.lruHits, countP_cons_toNat, hhit]

/-! ## The books -/

/-- All that a replay keeps tells of its visits. -/
structure Books (r : Replay) (visits : List Visit) (signals : Nat) : Prop where
  chains : ChainsBooked r.tracker.contexts visits
  sites : SitesBooked r visits
  arcs : ArcsBooked r visits
  tallies : TalliesBooked r visits
  stats : StatsBooked r.tracker.stats visits signals
  balanced : r.tracker.Balanced

/-- Nothing that the books are about is different but the counts. -/
structure Alike (r r' : Replay) : Prop where
  contexts : r'.tracker.contexts = r.tracker.contexts
  anchors : r'.tracker.anchors = r.tracker.anchors
  ledger : r.tracker.ledger.SameCalls r'.tracker.ledger
  hotspots : r'.hotspots = r.hotspots
  sits : r'.Sits = r.Sits

theorem Books.alike {n n' : Nat} (h : Books r visits n) (s : Alike r r')
    (hstats : StatsBooked r'.tracker.stats visits n') (hbalanced : r'.tracker.Balanced) : Books r' visits n' := by
  obtain ⟨hcontexts, hanchors, hledger, hhotspots, hsits⟩ := s
  have hcalls : r'.tracker.ledger.calls = r.tracker.ledger.calls := hledger.calls
  refine ⟨by rw [hcontexts]; exact h.chains, ⟨?_, ?_, ?_, ?_, ?_, ?_⟩,
    ⟨hledger.numbered h.arcs.numbered, ?_, ?_, ?_, ?_⟩, ⟨?_, ?_⟩, hstats, hbalanced⟩
  · rw [hanchors]
    exact h.sites.filed
  · rw [hanchors]
    exact h.sites.size
  · rw [Seated, hanchors, hsits]
    exact h.sites.seated
  · rw [hsits]
    exact h.sites.mem
  · rw [hsits]
    exact h.sites.after
  · rw [hsits, hanchors]
    exact h.sites.hints
  · rw [Ledger.arcCount, hcalls]
    exact h.arcs.arcCount
  · rw [Ledger.totalCalls, hcalls]
    exact h.arcs.totalCalls
  · rw [hsits, hledger.arcs]
    exact h.arcs.opened
  · rw [hsits, hledger.arcs]
    exact h.arcs.called
  · rw [hhotspots]
    exact h.tallies.total
  · intro c x hx
    rw [hcontexts] at hx
    obtain ⟨t, ht, htallied⟩ := h.tallies.tallied c x hx
    exact ⟨t, by rw [hhotspots, ht], htallied.executions, by rw [hsits]; exact htallied.live, htallied.blocks⟩

/-- Before the first event nothing is booked. -/
theorem start_books {config : Config} (hr : start trace config = .ok r) : Books r [] 0 := by
  obtain ⟨C, A, F, hC, hA, rfl, -⟩ := start_eq hr
  obtain ⟨hfiled, hsize, hnone⟩ := ContextTable.ofBuckets_filed hC
  obtain ⟨hfiled', hsize', hnone'⟩ := Directory.ofBuckets_filed hA
  have hsits : ∀ u a s, ¬Sits {
      tracker := { config, contexts := C, anchors := A, functions := F }
      live := Array.replicate trace.blocks.size none } u a s := by
    rintro u a s ⟨y, -, hy, -⟩
    exact hnone' a y hy
  refine ⟨⟨hfiled, hsize, fun chain => iff_of_false ?_ List.not_mem_nil⟩,
    ⟨hfiled', hsize', fun a y hy => absurd hy (hnone' a y), fun u s => iff_of_false ?_ List.not_mem_nil,
      fun v hv => ?_, fun u a s y hs => absurd hs (hsits u a s)⟩,
    ⟨Ledger.empty_numbered, rfl, rfl, fun v hv => ?_, fun arc harc => ?_⟩,
    ⟨rfl, fun c x hx => absurd hx (hnone c x)⟩, ⟨rfl, rfl, rfl, rfl, rfl, rfl, rfl⟩, rfl⟩
  · rintro ⟨c, x, hx, -⟩
    exact hnone c x hx
  · rintro ⟨a, hs⟩
    exact hsits u a s hs
  · cases hv
  · cases hv
  · cases harc

/-- A visit enters itself in the books. -/
theorem Books.visit {n : Nat} (h : Books r visits n) (hshows : Shows P r w) {pos : Position} {place : Nat}
    {exit : Option Nat} {d : BlockDecl} {id : BlockId} {a : AnchorId} {t : Tracker} {y : Anchor}
    (vis : Visited trace r pos place exit d id r₁ a t y r') {b : Block} (hb : trace.toBlock d = .ok b)
    (hP : P.block place = some b) :
    Books r' (P.visitOf visits pos.thread pos.sp place b (w pos.thread) :: visits) n := by
  obtain ⟨blocks, live, p, hr₁, h₁, hsits, hid, hblock, hthread, hsame, e⟩ :=
    vis.entered_eq hshows hb hP h.chains.filed
  -- Registering the block changes nothing that is booked.
  have hbooks : Books r₁ visits n := by
    have hsits : r₁.Sits = r.Sits := funext fun u => funext fun a => funext fun s => propext (hsits u a s)
    refine h.alike ⟨by rw [hr₁], by rw [hr₁], by rw [hr₁]; exact .refl _, by rw [hr₁], hsits⟩ ?_ ?_
    · rw [hr₁]
      exact h.stats
    · rw [hr₁]
      exact h.balanced
  have hslots := h₁.inv.tables.anchorSlots
  have m := vis.bills hshows hb hP h₁ hid hblock hthread e hbooks.sites.filed hbooks.sites.seated
  have hlast : Option.Rel (r₁.Sits pos.thread) p.last (w pos.thread).last := hsame.last
  obtain ⟨z, hz, hchain⟩ := m.context
  -- A call goes over an arc unless it enters a skipped function.
  have hsource : Option.Rel (fun p q => r₁.Sits pos.thread p.1 q.1 ∧ q.2 = p.2)
      (if (((w pos.thread).transfer P.blockOf P.tailCalls b pos.sp).enters && !P.skips b.fn) = true then
        p.callSource r₁.tracker.blockOf else none)
      (P.visitOf visits pos.thread pos.sp place b (w pos.thread)).source := by
    rw [Program.visitOf]
    split
    · exact hsame.callSource fun _ _ hs => h₁.blockOf hs
    · exact .none
  exact ⟨hbooks.chains.visit e.contexts m.kept hz hchain, hbooks.sites.visit m e hslots rfl rfl hlast,
    hbooks.arcs.visit m e rfl rfl hsource,
    hbooks.tallies.visit h₁ m hbooks.chains hbooks.sites e (by rw [vis.result]) rfl rfl,
    hbooks.stats.visit e rfl (hbooks.sites.hit m hlast).symm, e.balanced hbooks.balanced⟩

/-- Where only a thread moved on, the sites are those that were there. -/
theorem sits_congr (hcontexts : r'.tracker.contexts = r.tracker.contexts)
    (hanchors : r'.tracker.anchors = r.tracker.anchors) (hlive : r'.live = r.live) : r'.Sits = r.Sits := by
  funext u a s
  rw [Sits, Sits, idOf, idOf, hcontexts, hanchors, hlive]

theorem StatsBooked.switchTo {n : Nat} (h : StatsBooked r.tracker.stats visits n) (u : ThreadId) :
    StatsBooked (r.tracker.switchTo u).stats visits n := by
  rw [Tracker.stats_switchTo]
  exact ⟨h.blocksExecuted, h.calls, h.promotedCalls, h.returnsAsJumps, h.emulatedCalls, h.lruHits, h.signals⟩

/-- A signal is counted and changes nothing else. -/
theorem Books.signal {n : Nat} (h : Books r visits n) (hinv : r.tracker.Inv) {signal : Int} {t : Tracker}
    (he : r.tracker.enterHandler u signal = .ok t) : Books { r with tracker := t } visits (n + 1) := by
  obtain ⟨-, -, -, hcontexts, hanchors, hledger⟩ := Tracker.Stays.switchTo r.tracker u
  unfold Tracker.enterHandler at he
  split at he
  · cases he
  · cases he
    have hstats := h.stats.switchTo u
    refine h.alike ⟨hcontexts, hanchors, ?_, rfl, sits_congr hcontexts hanchors rfl⟩
      ⟨hstats.blocksExecuted, hstats.calls, hstats.promotedCalls, hstats.returnsAsJumps, hstats.emulatedCalls,
        hstats.lruHits, congrArg (· + 1) hstats.signals⟩ (h.balanced.switchTo hinv u)
    show r.tracker.ledger.SameCalls (r.tracker.switchTo u).ledger
    rw [hledger]
    exact .refl _

/-- A handler that returns leaves frames, which are no visits. -/
theorem Books.signalReturn {n : Nat} (h : Books r visits n) (hshows : Shows P r w) {signal : Int} {t : Tracker}
    (he : r.tracker.exitHandler u signal = .ok t) : Books { r with tracker := t } visits n := by
  obtain ⟨p, hp, -⟩ := hshows.told u
  obtain ⟨-, hu, -⟩ := Tracker.exitHandler_tells he hp
  obtain ⟨-, -, -, hcontexts, hanchors, hledger⟩ := Tracker.Stays.switchTo r.tracker u
  obtain ⟨k, hreturns, -⟩ := hu.returns
  have hstats := h.stats.switchTo u
  have hcontexts : t.contexts = r.tracker.contexts := hu.contexts.trans hcontexts
  have hanchors : t.anchors = r.tracker.anchors := hu.anchors.trans hanchors
  refine h.alike ⟨hcontexts, hanchors, by rw [← hledger]; exact hu.ledger, rfl, sits_congr hcontexts hanchors rfl⟩ ?_
    (hu.balanced (h.balanced.switchTo hshows.inv u))
  show StatsBooked t.stats visits n
  rw [hreturns]
  exact ⟨hstats.blocksExecuted, hstats.calls, hstats.promotedCalls, hstats.returnsAsJumps, hstats.emulatedCalls,
    hstats.lruHits, hstats.signals⟩

end CallGraph.Replay
