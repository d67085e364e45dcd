/-
  CallGraph.Proofs.Profile — what a replay made of its events, apart from blocks and anchors.

  A `Profile` has the chains of the contexts in the order of their numbers, how often each context was
  executed, and the totals. What a block adds to it depends on the chain it is billed to, on the kind of its
  transfer and on whether its function became active (`Visited.profile`); a discard adds nothing, whatever it
  takes from the tallies (`play_discard_profile`). So replays of one profile at one world come to one
  profile with the next event (`play_profile`), and their summaries agree in all that is no
  matter of blocks and anchors (`close_profile`).
-/

import CallGraph.Proofs.Conservation

namespace CallGraph

/-! ## Chains by number -/

namespace ContextTable

variable {t t' : ContextTable} {c : ContextId} {x : Context}

/-- The chains of all contexts, in the order of their numbers. -/
def chains (t : ContextTable) : List (List FnId) := t.contexts.toList.map Context.chain

theorem getElem?_chains (t : ContextTable) (i : Nat) : t.chains[i]? = (t.get? ⟨i⟩).map Context.chain := by
  rw [chains, List.getElem?_map, Array.getElem?_toList]
  rfl

theorem length_chains (t : ContextTable) : t.chains.length = t.size := by
  rw [chains, List.length_map, Array.length_toList]
  rfl

theorem mem_chains {chain : List FnId} : chain ∈ t.chains ↔ ∃ c x, t.get? c = some x ∧ x.chain = chain := by
  rw [List.mem_iff_getElem?]
  constructor
  · rintro ⟨i, hi⟩
    rw [getElem?_chains] at hi
    obtain ⟨x, hx, hchain⟩ := Option.map_eq_some_iff.mp hi
    exact ⟨⟨i⟩, x, hx, hchain⟩
  · rintro ⟨c, x, hx, hchain⟩
    exact ⟨c.num, by rw [getElem?_chains]; exact Option.map_eq_some_iff.mpr ⟨x, hx, hchain⟩⟩

/-- No chain has two numbers, so a chain is found under its own. -/
theorem Filed.idxOf_chains (h : t.Filed) (hx : t.get? c = some x) : t.chains.idxOf x.chain = c.num := by
  have hmem : x.chain ∈ t.chains := mem_chains.mpr ⟨c, x, hx, rfl⟩
  have hget := List.getElem?_idxOf hmem
  rw [getElem?_chains] at hget
  obtain ⟨y, hy, hchain⟩ := Option.map_eq_some_iff.mp hget
  exact congrArg ContextId.num (h.distinct _ _ y x hy hx hchain)

/-- A chain that comes up keeps its number, or gets the next one. -/
theorem chains_of_adds (h : t.Filed) (hadds : t' = t ∨ t.Adds t' c) (hkept : t.Extends t') (hx : t'.get? c = some x) :
    t.chains.idxOf x.chain = c.num ∧
      t'.chains = if x.chain ∈ t.chains then t.chains else t.chains ++ [x.chain] := by
  obtain rfl | hadds := hadds
  · rw [if_pos (mem_chains.mpr ⟨c, x, hx, rfl⟩)]
    exact ⟨h.idxOf_chains hx, rfl⟩
  · have hnew : x.chain ∉ t.chains := by
      intro hmem
      obtain ⟨d, y, hy, hchain⟩ := mem_chains.mp hmem
      exact hadds.fresh x hx d y hy hchain
    -- The next number is taken, and by nothing that was there before.
    have hnext : c.num = t.size := by
      have hlt : t.size < t'.size := by
        rw [hadds.size]
        exact Nat.lt_succ_self _
      obtain hc | hold := hadds.old ⟨t.size⟩ _ (Array.getElem?_eq_getElem hlt)
      · exact (congrArg ContextId.num hc).symm
      · exact absurd (Array.getElem?_eq_some_iff.mp hold).1 (Nat.lt_irrefl _)
    rw [if_neg hnew, List.idxOf_eq_length hnew, length_chains]
    refine ⟨hnext.symm, List.ext_getElem? fun i => ?_⟩
    obtain hi | hi | hi := Nat.lt_trichotomy i t.size
    · rw [List.getElem?_append_left (by rwa [length_chains]), getElem?_chains, getElem?_chains]
      have hold : t.get? ⟨i⟩ = some _ := Array.getElem?_eq_getElem hi
      rw [hold, hkept.kept _ _ hold]
    · rw [hi, ← length_chains, List.getElem?_concat_length, getElem?_chains, length_chains, ← hnext, hx]
      rfl
    · have hnone : ∀ {l : List (List FnId)}, l.length = t.size + 1 → l[i]? = none :=
        fun hl => List.getElem?_eq_none (by omega)
      rw [hnone (by rw [length_chains, hadds.size]), hnone (by rw [List.length_append, length_chains]; rfl)]

end ContextTable

/-! ## Profiles -/

/-- What was made of the events. -/
structure Profile where
  /-- The chains of the contexts, in the order of their numbers. -/
  chains : List (List FnId)
  /-- How often each context was executed, by its number. -/
  loads : SortedMap Nat
  /-- The executions of all contexts. -/
  total : Nat
  blocksExecuted : Nat
  totals : Totals

/-- With one block more, billed to a chain. -/
def Profile.block (p : Profile) (chain : List FnId) (x : Transfer) (skip becameActive : Bool) : Profile where
  chains := if chain ∈ p.chains then p.chains else p.chains ++ [chain]
  loads := p.loads.insert (p.chains.idxOf chain) ((p.loads.get? (p.chains.idxOf chain)).getD 0 + 1)
  total := p.total + 1
  blocksExecuted := p.blocksExecuted + 1
  totals := p.totals.block x skip becameActive

def Profile.signal (p : Profile) : Profile := { p with totals := p.totals.signal }

namespace Replay

variable {P : Program} {trace : Trace} {r r' r₁ s s' : Replay} {w v : World}

def profile (r : Replay) : Profile where
  chains := r.tracker.contexts.chains
  loads := r.hotspots.loads
  total := r.hotspots.total
  blocksExecuted := r.tracker.stats.blocksExecuted
  totals := r.tracker.totals

/-- A block counts in its chain. -/
theorem Visited.profile {pos : Position} {place : Nat} {exit : Option Nat} {d : BlockDecl} {id : BlockId} {a : AnchorId}
    {t : Tracker} {y : Anchor} (vis : Visited trace r pos place exit d id r₁ a t y s) (h : Shows P r w)
    (o : r.tracker.InOrder) (hseated : r.Seated) {b : Block} (hb : trace.toBlock d = .ok b)
    (hP : P.block place = some b) :
    s.profile = r.profile.block (P.site pos.sp place b (w pos.thread)).chain
      ((w pos.thread).transfer P.blockOf P.tailCalls b pos.sp) (P.skips b.fn)
      (Tracker.wakes b.fn r.tracker.functions s.tracker.functions) := by
  obtain ⟨blocks, live, p, hr₁, h₁, -, -, -, -, -, e⟩ := vis.entered_eq h hb hP o.contexts
  obtain ⟨hshows, hsits, -⟩ := vis.shows h hb hP
  obtain ⟨hkept, -, hy, hhotspots⟩ := vis.kept h hb hP
  have htotals := (vis.changes h o hseated hb hP).totals
  have hstats := e.stats.blocksExecuted
  obtain ⟨z, x, hz, -, -, hx, hchain⟩ := hsits
  obtain rfl := Option.some.inj (hz.symm.trans hy)
  have hadds := e.contexts.2
  rw [hr₁] at hadds hstats
  obtain ⟨hnumber, hchains⟩ := ContextTable.chains_of_adds o.contexts hadds hkept hx
  rw [hchain] at hnumber hchains
  simp only [Replay.profile, Profile.block, hchains, htotals, hstats, hnumber, hhotspots, Hotspots.loads_record]
  rfl

/-- Where only a thread moved on, only the totals changed. -/
theorem Turns.profile {u : ThreadId} {n : Nat} {t : Tracker} (m : Turns r u n t) :
    Replay.profile { r with tracker := t } = { r.profile with totals := t.totals } := by
  obtain ⟨returns, threadSwitches, hstats⟩ := m.stats
  simp only [Replay.profile, m.contexts, hstats]

/-- A signal is counted. -/
theorem play_signal_profile (h : r.tracker.Inv) (hseated : r.Seated) {i : Nat} {tid : UInt32} {signal : Int32}
    (hplay : play trace r i (.signal tid signal) = .ok s) : s.profile = r.profile.signal := by
  have htotals := (play_signal hseated hplay).totals
  obtain ⟨t, rfl, turns⟩ := play_turns h rfl rfl hplay
  rw [turns.profile, htotals]
  rfl

/-- A handler that returns is not counted. -/
theorem play_signalReturn_profile (h : r.tracker.Inv) (hseated : r.Seated) {i : Nat} {tid : UInt32} {signal : Int32}
    (hplay : play trace r i (.signalReturn tid signal) = .ok s) : s.profile = r.profile := by
  have htotals := (play_signalReturn h hseated hplay).totals
  obtain ⟨t, rfl, turns⟩ := play_turns h rfl rfl hplay
  rw [turns.profile, htotals]
  rfl

/-- What a discard takes from the tallies are no executions. -/
theorem play_discard_profile {i : Nat} {place : UInt32} (hplay : play trace r i (.discard place) = .ok s) :
    s.profile = r.profile := by
  obtain ⟨-, rfl⟩ | ⟨id, o, hotspots, -, ho, hretire, rfl⟩ := playDiscard_eq (lift_eq_ok.mp hplay)
  · rfl
  · obtain ⟨hloads, htotal⟩ := Hotspots.loads_retireAll hretire
    have htotals := Tracker.discardBlock_totals r.tracker id
    obtain ⟨A, B, L, hdiscard, -⟩ := Tracker.discardBlock_live ho
    rw [hdiscard] at htotals ⊢
    simp only [Replay.profile, hloads, htotal, htotals]

/-- Replays of one profile at one world come to one profile with the next event. -/
theorem play_profile {config : Config} (hblocks : ∀ d ∈ trace.blocks, ∃ b, trace.toBlock d = .ok b)
    (h : Shows (trace.program config) r w) (h' : Shows (trace.program config) r' w) (o : r.tracker.InOrder)
    (o' : r'.tracker.InOrder) (hseated : r.Seated) (hseated' : r'.Seated) (m : r'.profile = r.profile) {i j : Nat}
    {e : Event} (hplay : play trace r i e = .ok s) (hplay' : play trace r' j e = .ok s')
    (hs : Shows (trace.program config) s v) (hs' : Shows (trace.program config) s' v) : s'.profile = s.profile := by
  cases e with
  | block tid sp place exit =>
    obtain ⟨d, b, id, r₁, a, t, y, vis, hb, hP⟩ := @play_visited _ _ _ config hblocks _ _ _ _ _ hplay
    obtain ⟨d', b', id', r₁', a', t', y', vis', hb', hP'⟩ := @play_visited _ _ _ config hblocks _ _ _ _ _ hplay'
    cases hP.symm.trans hP'
    rw [vis.profile h o hseated hb hP, vis'.profile h' o' hseated' hb' hP, m,
      h.wakes_congr h' hs hs' (fun _ => rfl) fun _ => rfl]
  | signal tid signal =>
    rw [play_signal_profile h.inv hseated hplay, play_signal_profile h'.inv hseated' hplay', m]
  | signalReturn tid signal =>
    rw [play_signalReturn_profile h.inv hseated hplay, play_signalReturn_profile h'.inv hseated' hplay', m]
  | discard place => rw [play_discard_profile hplay, play_discard_profile hplay', m]

end Replay

/-! ## Summaries -/

/-- What the ranking says of a context, but for the number of its blocks. -/
def Hotspot.load (h : Hotspot) : String × Nat × Nat × Nat := (h.context, h.depth, h.executions, h.total)

/-- What the ranking says of the context with a number. -/
def Profile.load (p : Profile) (P : Program) (c : ContextId) (executions : Nat) : String × Nat × Nat × Nat :=
  (P.title (p.chains.getD c.num []), (p.chains.getD c.num []).length, executions, p.total)

/-- A summary of a profile. -/
structure Summary.Profiles (s : Summary) (P : Program) (p : Profile) : Prop where
  contexts : s.contexts = p.chains.length
  blocksExecuted : s.stats.blocksExecuted = p.blocksExecuted
  totals : p.totals = ⟨s.calls, s.entries, s.stats.calls, s.stats.promotedCalls, s.stats.returnsAsJumps,
    s.stats.emulatedCalls, s.stats.signals⟩
  returns : s.stats.returns = s.stats.calls
  hotspots : s.hotspots.map Hotspot.load =
    (p.loads.entries.mergeSort fun p q => q.2 < p.2 || (q.2 = p.2 && p.1 ≤ q.1)).map fun q => p.load P ⟨q.1⟩ q.2

namespace Replay

theorem chainOf_eq (r : Replay) (c : ContextId) : r.chainOf c = r.profile.chains.getD c.num [] := by
  rw [List.getD_eq_getElem?_getD, profile, ContextTable.getElem?_chains]
  rfl

/-- A replay that came to the end of its events is summed up by its profile. -/
theorem close_profile {P : Program} {r : Replay} {w : World} (h : Shows P r w) (o : r.tracker.InOrder) {trace : Trace}
    {s : Summary} (hs : r.close trace = .ok s) : s.Profiles P r.profile := by
  obtain ⟨s₀, hs₀, -, -, -, -, -, hstats, hhotspots⟩ := close_eq h trace
  cases hs.symm.trans hs₀
  obtain ⟨hcontexts, -, htotals, hreturns⟩ := close_totals h o hs
  refine ⟨?_, by rw [hstats]; rfl, htotals, hreturns, ?_⟩
  · rw [hcontexts]
    exact r.tracker.contexts.length_chains.symm
  · have hranked := congrArg (List.map fun q => r.profile.load P q.1 q.2) r.hotspots.ranked_loads
    rw [List.map_map, List.map_map] at hranked
    rw [hhotspots, List.map_map]
    refine Eq.trans (List.map_congr_left fun q _ => ?_) hranked
    show (P.title (r.chainOf q.1), (r.chainOf q.1).length, q.2.executions, r.hotspots.total) = _
    rw [chainOf_eq]
    rfl

end Replay
end CallGraph
