/-
  CallGraph.Proofs.IdleDiscards — dropping the code of an idle block changes nothing that is counted.

  A block is idle when no thread refers to an anchor of it (`Replay.Idle`): it did not run last on a thread
  or where a handler interrupted one, and no skipped code goes back to it. What a replay shows of the threads
  then has nothing to forget, so a discard of the block leaves it at the same world (`Shows.forget_idle`).
  The replay without the discard and the one with it have other ids for the block, other anchors and
  other hints from then on, but stay at the same world and of the same profile (`IdleAt.worldAfter`,
  `IdleAt.after_profile`), also when the block runs or is dropped again.
  - `Trace.replay_withDiscard`: what the two replays have in common.
-/

import CallGraph.Proofs.Profile

namespace CallGraph

/-! ## Idle blocks -/

namespace Replay

variable {P : Program} {trace : Trace} {r : Replay} {w : World} {place : Nat}

/-- No thread refers to an anchor of the block declared at a place: neither by what ran last nor by a handler or a
frame. -/
def Idle (r : Replay) (place : Nat) : Prop :=
  ∀ u, ∀ a ∈ (r.tracker.state u).anchors, ∀ y, r.tracker.anchors.get? a = some y → r.idOf place ≠ some y.key.block

/-- A thread that was not seen yet refers to nothing. -/
theorem idle_iff : r.Idle place ↔ (r.tracker.threads.ids.all fun u => (r.tracker.state u).anchors.all fun a =>
    (r.tracker.anchors.get? a).all fun y => r.idOf place != some y.key.block) = true := by
  simp only [List.all_eq_true, Option.all_eq_true, bne_iff_ne]
  constructor
  · exact fun h u _ a ha y hy => h u a ha y hy
  · intro h u a ha y hy
    refine h u (Registry.mem_ids.mpr ?_) a ha y hy
    cases hu : r.tracker.threads.get? u with
    | some s => exact ⟨s, rfl⟩
    | none =>
      rw [Tracker.state, hu] at ha
      cases ha

instance : Decidable (r.Idle place) := decidable_of_iff' _ idle_iff

/-- Of a world in which a block is idle there is nothing to forget when it is dropped. -/
theorem Shows.forget_idle (h : Shows P r w) (hidle : r.Idle place) (u : ThreadId) :
    (w u).forget (fun s => s.place = place) = w u := by
  obtain ⟨p, hp, hsame⟩ := h.told u
  refine Scene.forget_eq fun s hs => decide_eq_false fun e => ?_
  obtain ⟨a, ha, y, -, hy, -, hlive, -⟩ := hsame.refs hs
  rw [e] at hlive
  exact hidle u a (hp.mem_anchors ha) y hy hlive

end Replay

/-! ## A trace with one discard more -/

namespace Trace

variable {trace : Trace} {config : Config} {n m : Nat} {place : UInt32} {r r' : Replay} {w : World}

/-- The trace with a discard put in before the event at place `n`. -/
def withDiscard (trace : Trace) (n : Nat) (place : UInt32) : Trace :=
  { trace with events := trace.events.insertIdx n (.discard place) }

theorem withDiscard_at (hn : n ≤ trace.events.length) : (trace.withDiscard n place).events[n]? = some (.discard place) := by
  rw [withDiscard, List.getElem?_insertIdx, if_neg (Nat.lt_irrefl n), if_pos rfl, if_pos hn]

theorem withDiscard_after (hm : n ≤ m) : (trace.withDiscard n place).events[m + 1]? = trace.events[m]? := by
  rw [withDiscard, List.getElem?_insertIdx, if_neg (by omega), if_neg (by omega)]
  rfl

theorem take_withDiscard (hm : m ≤ n) : (trace.withDiscard n place).events.take m = trace.events.take m :=
  List.take_insertIdx_eq_take_of_le trace.events (.discard place) m n hm

/-- Whether an event refers to what is declared does not depend on its place. -/
theorem checkEvent_place {i j : Nat} {e : Event} (h : trace.checkEvent i e = .ok ()) : trace.checkEvent j e = .ok () := by
  cases e with
  | block tid sp place exit =>
    simp only [checkEvent] at h ⊢
    cases hd : trace.blocks[place.toNat]? with
    | none =>
      rw [hd] at h
      cases h
    | some d =>
      simp only [hd] at h ⊢
      split at h
      · cases h
      · rfl
  | discard place =>
    simp only [checkEvent] at h ⊢
    cases hd : trace.blocks[place.toNat]? with
    | none =>
      rw [hd] at h
      cases h
    | some d => rfl
  | signal tid signal | signalReturn tid signal =>
    have hpos := Replay.checkSignal_eq_ok h
    exact if_neg (by omega)

/-- A place of a valid trace where a declared block is idle, if the replay gets there. -/
structure IdleAt (trace : Trace) (config : Config) (n : Nat) (place : UInt32) : Prop where
  valid : trace.check = .ok ()
  declared : place.toNat < trace.blocks.size
  within : n ≤ trace.events.length
  idle : ∀ r, trace.after config n = .ok r → r.Idle place.toNat

namespace IdleAt

/-- A discard of a declared block can be put in anywhere. -/
theorem check (h : trace.IdleAt config n place) : (trace.withDiscard n place).check = .ok () := by
  have hvalid := h.valid
  unfold Trace.check at hvalid ⊢
  obtain ⟨_, hconfig, hvalid⟩ := bind_eq_ok.mp hvalid
  obtain ⟨_, hfunctions, hvalid⟩ := bind_eq_ok.mp hvalid
  obtain ⟨_, hblocks, hevents⟩ := bind_eq_ok.mp hvalid
  refine bind_eq_ok.mpr ⟨_, hconfig, bind_eq_ok.mpr ⟨_, hfunctions, bind_eq_ok.mpr ⟨_, hblocks, ?_⟩⟩⟩
  refine forM_eq_ok.mpr fun p hp => ?_
  obtain he | he := (List.mem_insertIdx h.within).mp (List.fst_mem_of_mem_zipIdx hp)
  · show trace.checkEvent p.2 p.1 = .ok ()
    rw [he, checkEvent, Array.getElem?_eq_getElem h.declared]
    rfl
  · obtain ⟨i, hi⟩ := List.mem_iff_getElem?.mp he
    have hchecked := forM_eq_ok.mp hevents (p.1, i) (List.mem_zipIdx_iff_getElem?.mpr hi)
    exact @checkEvent_place trace i p.2 p.1 hchecked

/-! ## Two replays -/

/-- Up to the discard nothing is different. -/
theorem after_before (h : trace.IdleAt config n place) (hm : m ≤ n) :
    (trace.withDiscard n place).after config m = trace.after config m := by
  rw [after, after, h.valid, h.check, take_withDiscard hm]
  rfl

/-- The discard leaves the world, and from then on the same events happen to it. -/
theorem worldAfter (h : trace.IdleAt config n place) (hconfig : config.Usable) (hm : n ≤ m) :
    (trace.withDiscard n place).worldAfter config (m + 1) = trace.worldAfter config m := by
  induction m, hm using Nat.le_induction with
  | base =>
    have hbefore : (trace.withDiscard n place).worldAfter config n = trace.worldAfter config n := by
      rw [Trace.worldAfter, Trace.worldAfter, take_withDiscard (Nat.le_refl n)]
      rfl
    rw [worldAfter_succ (withDiscard_at h.within), hbefore]
    obtain ⟨r, w, hr, hw, hshows⟩ | ⟨-, hw⟩ := after_shows h.valid hconfig n
    · have hsame : (fun u => (w u).forget fun s => s.place = place.toNat) = w :=
        funext (hshows.forget_idle (h.idle r hr))
      rw [hw]
      exact congrArg some hsame
    · rw [hw]
      rfl
  | succ m hm ih =>
    cases he : trace.events[m]? with
    | none =>
      rw [worldAfter_stop he, ← ih]
      refine worldAfter_stop ?_
      rw [withDiscard_after hm, he]
    | some e =>
      have he' : (trace.withDiscard n place).events[m + 1]? = some e := by rw [withDiscard_after hm, he]
      rw [worldAfter_succ he, worldAfter_succ he', ih]
      rfl

/-- The replay with the discard gets equally far. -/
theorem after_ok (h : trace.IdleAt config n place) (hm : n ≤ m) :
    (∃ r, trace.after config m = .ok r) ↔ ∃ r, (trace.withDiscard n place).after config (m + 1) = .ok r := by
  refine after_together h.valid h.check Iff.rfl fun hconfig => ?_
  rw [h.worldAfter hconfig hm]

/-- Both replays are at the same world. -/
theorem after_shows (h : trace.IdleAt config n place) (hm : n ≤ m) (hr : trace.after config m = .ok r)
    (hr' : (trace.withDiscard n place).after config (m + 1) = .ok r') :
    ∃ w, trace.worldAfter config m = some w ∧ (trace.withDiscard n place).worldAfter config (m + 1) = some w ∧
      Replay.Shows (trace.program config) r w ∧ Replay.Shows (trace.program config) r' w := by
  obtain ⟨w, hw, hshows⟩ := after_eq h.valid (config_ok hr) hr
  obtain ⟨w', hw', hshows'⟩ := after_eq h.check (config_ok hr') hr'
  have hsame := h.worldAfter (config_ok hr) hm
  rw [hw, hw'] at hsame
  obtain rfl := Option.some.inj hsame
  exact ⟨w', hw, hw', hshows, hshows'⟩

/-- Both replays are of the same profile. -/
theorem after_profile (h : trace.IdleAt config n place) (hm : n ≤ m) (hr : trace.after config m = .ok r)
    (hr' : (trace.withDiscard n place).after config (m + 1) = .ok r') : r'.profile = r.profile := by
  induction m, hm using Nat.le_induction generalizing r r' with
  | base =>
    rw [after_succ (withDiscard_at h.within), h.after_before (Nat.le_refl n), hr, ok_bind] at hr'
    exact Replay.play_discard_profile hr'
  | succ m hm ih =>
    cases he : trace.events[m]? with
    | none =>
      rw [after_stop he] at hr
      rw [after_stop (by rw [withDiscard_after hm, he])] at hr'
      exact ih hr hr'
    | some e =>
      have he' : (trace.withDiscard n place).events[m + 1]? = some e := by rw [withDiscard_after hm, he]
      obtain ⟨_, -, -, hs, hs'⟩ := h.after_shows (Nat.le_succ_of_le hm) hr hr'
      rw [after_succ he] at hr
      rw [after_succ he'] at hr'
      obtain ⟨r₀, hr₀, hplay⟩ := bind_eq_ok.mp hr
      obtain ⟨r₀', hr₀', hplay'⟩ := bind_eq_ok.mp hr'
      obtain ⟨_, -, -, h₀, h₀'⟩ := h.after_shows hm hr₀ hr₀'
      exact Replay.play_profile (check_eq_ok h.valid).1 h₀ h₀' (after_inOrder hr₀) (after_inOrder hr₀')
        (after_seated h.valid hr₀) (after_seated h.check hr₀') (ih hr₀ hr₀') hplay hplay' hs hs'

end IdleAt
end Trace

/-- Summaries that agree in everything but blocks, anchors and arcs. -/
structure Summary.SameCourse (s s' : Summary) : Prop where
  contexts : s'.contexts = s.contexts
  calls : s'.calls = s.calls
  entries : s'.entries = s.entries
  hotspots : s'.hotspots.map Hotspot.load = s.hotspots.map Hotspot.load
  blocksExecuted : s'.stats.blocksExecuted = s.stats.blocksExecuted
  frames : s'.stats.calls = s.stats.calls
  returns : s'.stats.returns = s.stats.returns
  promotedCalls : s'.stats.promotedCalls = s.stats.promotedCalls
  returnsAsJumps : s'.stats.returnsAsJumps = s.stats.returnsAsJumps
  emulatedCalls : s'.stats.emulatedCalls = s.stats.emulatedCalls
  signals : s'.stats.signals = s.stats.signals

theorem Summary.Profiles.sameCourse {P : Program} {p : Profile} {s s' : Summary} (h : s.Profiles P p)
    (h' : s'.Profiles P p) : s.SameCourse s' := by
  have htotals := h'.totals.symm.trans h.totals
  simp only [Totals.mk.injEq] at htotals
  obtain ⟨hcalls, hentries, hframes, hpromoted, hjumps, hemulated, hsignals⟩ := htotals
  refine ⟨h'.contexts.trans h.contexts.symm, hcalls, hentries, h'.hotspots.trans h.hotspots.symm,
    h'.blocksExecuted.trans h.blocksExecuted.symm, hframes, ?_, hpromoted, hjumps, hemulated, hsignals⟩
  rw [h.returns, h'.returns, hframes]

namespace Trace

variable {trace : Trace} {config : Config} {n : Nat} {place : UInt32}

/-- A discard of a declared block that is idle can be put into a valid trace without changing its course. Up to the
discard both replays are the same, and from then on both get equally far, all threads have as many frames after
every event, and every block is billed to the same chain. Both come to a summary or none does, and the
summaries agree in contexts, calls, entries and executions and in what happened. -/
theorem replay_withDiscard (h : trace.IdleAt config n place) :
    ((∃ s, trace.replay config = .ok s) ↔ ∃ s, (trace.withDiscard n place).replay config = .ok s) ∧
      (∀ m ≤ n, (trace.withDiscard n place).after config m = trace.after config m) ∧
      (∀ m, n ≤ m →
        ((∃ r, trace.after config m = .ok r) ↔ ∃ r, (trace.withDiscard n place).after config (m + 1) = .ok r)) ∧
      (∀ m r r', n ≤ m → trace.after config m = .ok r → (trace.withDiscard n place).after config (m + 1) = .ok r' →
        (∀ u, (r'.tracker.state u).shadow.depth = (r.tracker.state u).shadow.depth) ∧
        ∀ j tid sp block exit, m = j + 1 → n ≤ j → trace.events[j]? = some (.block tid sp block exit) →
          ∃ chain, r.billed = some chain ∧ r'.billed = some chain) ∧
      ∀ s s', trace.replay config = .ok s → (trace.withDiscard n place).replay config = .ok s' → s.SameCourse s' := by
  have hlength : (trace.withDiscard n place).events.length = trace.events.length + 1 := by
    rw [withDiscard, List.length_insertIdx, if_pos h.within]
  refine ⟨?_, fun m hm => h.after_before hm, fun m hm => h.after_ok hm, fun m r r' hm hr hr' => ?_,
    fun s s' hs hs' => ?_⟩
  · rw [replay_ok_iff, replay_ok_iff, hlength]
    exact h.after_ok h.within
  · obtain ⟨w, hw, hw', hshows, hshows'⟩ := h.after_shows hm hr hr'
    refine ⟨fun u => by rw [hshows.depth, hshows'.depth], fun j tid sp block exit hj hnj he => ?_⟩
    subst hj
    have he' : (trace.withDiscard n place).events[j + 1]? = some (.block tid sp block exit) := by
      rw [withDiscard_after hnj, he]
    exact ⟨_, after_billed h.valid (config_ok hr) he hr hw, after_billed h.check (config_ok hr') he' hr' hw'⟩
  · obtain ⟨r, hr, hclose⟩ := after_of_replay hs
    obtain ⟨r', hr', hclose'⟩ := after_of_replay hs'
    rw [hlength] at hr'
    obtain ⟨w, -, -, hshows, hshows'⟩ := h.after_shows h.within hr hr'
    have hsummary' := Replay.close_profile hshows' (after_inOrder hr') hclose'
    rw [h.after_profile h.within hr hr'] at hsummary'
    exact (Replay.close_profile hshows (after_inOrder hr) hclose).sameCourse hsummary'

/-- `main` calls `work` twice, and its block is dropped in the end. -/
def twoCallsRun : Trace where
  objects := #["program"]
  functions := #[{ name := "main", object := 0 }, { name := "work", object := 0 }]
  blocks := #[
    { addr := ⟨100⟩, function := 0, isEntry := true, exits := [{ kind := .call, size := 5 }] },
    { addr := ⟨200⟩, function := 1, isEntry := true, exits := [{ kind := .ret, size := 1 }] },
    { addr := ⟨105⟩, function := 0, exits := [{ kind := .call, size := 5 }] },
    { addr := ⟨110⟩, function := 0, exits := [{ kind := .jump, size := 1 }] }]
  events := [.block 1 ⟨1000⟩ 0 none, .block 1 ⟨990⟩ 1 none, .block 1 ⟨1000⟩ 2 none, .block 1 ⟨990⟩ 1 none,
    .block 1 ⟨1000⟩ 3 none, .discard 1]

/-- Between the two calls `work` is idle, and where it is dropped then, it still runs in the same chain. -/
theorem replay_withDiscard_twoCallsRun :
    twoCallsRun.IdleAt Tracker.fewBuckets 3 1 ∧
      ∃ s s' r', twoCallsRun.replay Tracker.fewBuckets = .ok s ∧
        (twoCallsRun.withDiscard 3 1).replay Tracker.fewBuckets = .ok s' ∧ s.SameCourse s' ∧
        (twoCallsRun.withDiscard 3 1).after Tracker.fewBuckets 5 = .ok r' ∧ r'.billed = some [⟨1⟩, ⟨0⟩] := by
  have hidle : twoCallsRun.IdleAt Tracker.fewBuckets 3 1 := by
    refine ⟨by decide +kernel, by decide, by decide, fun r hr => ?_⟩
    have hknown : (twoCallsRun.after Tracker.fewBuckets 3).map (fun r => decide (r.Idle 1)) = .ok true := by
      decide +kernel
    rw [hr] at hknown
    exact of_decide_eq_true (Except.ok.inj hknown)
  obtain ⟨hreplay, -, hreach, hsame, hsummaries⟩ := replay_withDiscard hidle
  have hbilled : (twoCallsRun.after Tracker.fewBuckets 4).map Replay.billed = .ok (some [⟨1⟩, ⟨0⟩]) := by decide +kernel
  have hend : (twoCallsRun.after Tracker.fewBuckets 6).map (fun r => r.hotspots.total) = .ok 5 := by decide +kernel
  obtain ⟨r, hr, hbilled⟩ := map_eq_ok.mp hbilled
  obtain ⟨r₆, hr₆, -⟩ := map_eq_ok.mp hend
  obtain ⟨s, hs⟩ := replay_ok_iff.mpr ⟨r₆, hr₆⟩
  obtain ⟨s', hs'⟩ := hreplay.mp ⟨s, hs⟩
  obtain ⟨r', hr'⟩ := (hreach 4 (by decide)).mp ⟨r, hr⟩
  obtain ⟨chain, hchain, hchain'⟩ := (hsame 4 r r' (by decide) hr hr').2 3 1 ⟨990⟩ 1 none rfl (by decide) rfl
  cases hbilled.symm.trans hchain
  exact ⟨hidle, s, s', r', hs, hs', hsummaries s s' hs hs', hr', hchain'⟩

end Trace
end CallGraph
