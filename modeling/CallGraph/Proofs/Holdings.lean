/-
  CallGraph.Proofs.Holdings — what a replay has contexts and anchors for.

  A replay only goes through states that operations can reach (`after_reach`), so its tables stay in order.
  What it has contexts and anchors for is told without their numbers: the chains that are known to it and
  the sites that its threads occupy. `Changes` says what an event does to these and to the totals, with one
  lemma for each kind of event. So every anchor is for a site at any time (`after_seated`).
-/

import CallGraph.Proofs.Booking
import CallGraph.Proofs.Books
import CallGraph.Proofs.Counting

namespace CallGraph

/-! ## Operations of a replay -/

namespace Replay

variable {trace : Trace} {config : Config} {r r' : Replay} {t t' : Tracker}

theorem registerFunction_reach (h : Tracker.Reach config t) {f : FunctionDecl} (hr : registerFunction t f = .ok t') :
    Tracker.Reach config t' := by
  unfold registerFunction at hr
  split at hr
  rename_i fn t₁ heq
  have hregister : t.step (.registerFunction f.name ⟨f.object.toNat⟩) = .ok (.function fn, t₁) := by
    rw [Tracker.step, heq]
    rfl
  have h₁ := h.step hregister
  split at hr
  · have hset : t₁.step (.setFunctionSkip fn true) = .ok (.done, t') := by
      rw [Tracker.step, hr]
      rfl
    exact h₁.step hset
  · cases hr
    exact h₁

theorem registerFunctions_reach (fs : List FunctionDecl) (h : Tracker.Reach config t)
    (hr : fs.foldlM registerFunction t = .ok t') : Tracker.Reach config t' := by
  induction fs generalizing t with
  | nil =>
    cases hr
    exact h
  | cons f fs ih =>
    rw [List.foldlM_cons] at hr
    obtain ⟨t₁, hf, hr⟩ := bind_eq_ok.mp hr
    exact ih (registerFunction_reach h hf) hr

theorem start_reach (hr : start trace config = .ok r) : Tracker.Reach config r.tracker := by
  unfold start at hr
  obtain ⟨t, ht, hr⟩ := bind_eq_ok.mp hr
  obtain ⟨t', hfold, hr⟩ := bind_eq_ok.mp hr
  cases hr
  exact registerFunctions_reach _ (.init ht) hfold

theorem resident_reach (h : Tracker.Reach config r.tracker) {place : Nat} {d : BlockDecl} {id : BlockId}
    (hr : resident trace r place d = .ok (id, r')) : Tracker.Reach config r'.tracker := by
  obtain ⟨-, ⟨-, rfl⟩ | ⟨-, b, t, -, hregister, rfl⟩⟩ := resident_eq hr
  · exact h
  · have hstep : r.tracker.step (.registerBlock b) = .ok (.block id, t) := by
      rw [Tracker.step, hregister]
      rfl
    exact h.step hstep

/-- An event performs operations of the tracker. -/
theorem play_reach (h : Tracker.Reach config r.tracker) {i : Nat} {e : Event} (hplay : play trace r i e = .ok r') :
    Tracker.Reach config r'.tracker := by
  cases e with
  | block tid sp place exit =>
    obtain ⟨d, id, r₁, a, t, y, v⟩ := playBlock_eq.mp (lift_eq_ok.mp hplay)
    have henter : r₁.tracker.step (.enterBlock ⟨⟨tid.toNat⟩, sp⟩ id) = .ok (.billed a, t) := by
      rw [Tracker.step, v.entered]
      rfl
    have hpassed : ∀ n, t.step (.setExitsPassed n) = .ok (.done, t.setExitsPassed n) := fun _ => rfl
    rw [v.result]
    exact ((resident_reach h v.resident).step henter).step (hpassed _)
  | signal tid signal =>
    obtain ⟨t, henter, rfl⟩ := play_signal_eq.mp hplay
    have hstep : r.tracker.step (.enterHandler ⟨tid.toNat⟩ signal.toInt) = .ok (.done, t) := by
      rw [Tracker.step, henter]
      rfl
    exact h.step hstep
  | signalReturn tid signal =>
    obtain ⟨-, t, hexit, rfl⟩ := play_signalReturn_eq.mp hplay
    have hstep : r.tracker.step (.exitHandler ⟨tid.toNat⟩ signal.toInt) = .ok (.done, t) := by
      rw [Tracker.step, hexit]
      rfl
    exact h.step hstep
  | discard place =>
    obtain ⟨-, rfl⟩ | ⟨id, o, hotspots, -, -, -, rfl⟩ := playDiscard_eq (lift_eq_ok.mp hplay)
    · exact h
    · have hstep : r.tracker.step (.discardBlock id) =
          .ok (.discarded (r.tracker.discardBlock id).1, (r.tracker.discardBlock id).2) := rfl
      exact h.step hstep

end Replay

namespace Trace

variable {trace : Trace} {config config' : Config} {r r' : Replay}

theorem start_of_after (hr : trace.after config 0 = .ok r) : Replay.start trace config = .ok r := by
  unfold after at hr
  obtain ⟨-, -, hr⟩ := bind_eq_ok.mp hr
  obtain ⟨-, -, hr⟩ := bind_eq_ok.mp hr
  obtain ⟨r₀, hr₀, hr⟩ := bind_eq_ok.mp hr
  cases hr
  exact lift_eq_ok.mp hr₀

/-- After the last event nothing is played. -/
theorem after_stop {n : Nat} (he : trace.events[n]? = none) : trace.after config (n + 1) = trace.after config n := by
  rw [after, List.take_add_one, he, Option.toList_none, List.append_nil]
  rfl

/-- What holds of two replays before the first event and goes on through every event holds of them after any number
of events. -/
theorem after_induction₂ {holds : Replay → Replay → Prop}
    (hstart : ∀ r r', Replay.start trace config = .ok r → Replay.start trace config' = .ok r' → holds r r')
    (hplay : ∀ n e r r' s s', trace.events[n]? = some e → trace.after config n = .ok r →
      trace.after config' n = .ok r' → holds r r' → Replay.play trace r n e = .ok s → Replay.play trace r' n e = .ok s' →
      holds s s') {n : Nat} (hr : trace.after config n = .ok r) (hr' : trace.after config' n = .ok r') : holds r r' := by
  induction n generalizing r r' with
  | zero => exact hstart r r' (start_of_after hr) (start_of_after hr')
  | succ n ih =>
    cases he : trace.events[n]? with
    | none =>
      rw [after_stop he] at hr hr'
      exact ih hr hr'
    | some e =>
      rw [after_succ he] at hr hr'
      obtain ⟨r₀, hr₀, hr⟩ := bind_eq_ok.mp hr
      obtain ⟨r₀', hr₀', hr'⟩ := bind_eq_ok.mp hr'
      exact hplay n e r₀ r₀' r r' he hr₀ hr₀' (ih hr₀ hr₀') hr hr'

/-- What holds of a replay and the events so far goes on if it holds of the replay with one event more. -/
theorem after_induction_events {holds : List Event → Replay → Prop}
    (hstart : ∀ r, Replay.start trace config = .ok r → holds [] r)
    (hplay : ∀ n e r s, trace.events[n]? = some e → trace.after config n = .ok r → holds (trace.events.take n) r →
      Replay.play trace r n e = .ok s → holds (trace.events.take n ++ [e]) s) {n : Nat}
    (hr : trace.after config n = .ok r) : holds (trace.events.take n) r := by
  induction n generalizing r with
  | zero => exact hstart r (start_of_after hr)
  | succ n ih =>
    rw [List.take_add_one]
    cases he : trace.events[n]? with
    | none =>
      rw [after_stop he] at hr
      rw [Option.toList_none, List.append_nil]
      exact ih hr
    | some e =>
      rw [after_succ he] at hr
      obtain ⟨r₀, hr₀, hr⟩ := bind_eq_ok.mp hr
      exact hplay n e r₀ r he hr₀ (ih hr₀) hr

/-- What holds before the first event and goes on through every event holds after any number of them. -/
theorem after_induction {holds : Replay → Prop} (hstart : ∀ r, Replay.start trace config = .ok r → holds r)
    (hplay : ∀ n e r s, trace.events[n]? = some e → trace.after config n = .ok r → holds r →
      Replay.play trace r n e = .ok s → holds s) {n : Nat} (hr : trace.after config n = .ok r) : holds r :=
  @after_induction_events trace config r (fun _ => holds) hstart hplay n hr

theorem after_reach {n : Nat} (hr : trace.after config n = .ok r) : Tracker.Reach config r.tracker :=
  after_induction (fun _ => Replay.start_reach) (fun _ _ _ _ _ _ h hplay => Replay.play_reach h hplay) hr

theorem after_inOrder {n : Nat} (hr : trace.after config n = .ok r) : r.tracker.InOrder :=
  Tracker.reach_inOrder (after_reach hr)

end Trace

/-! ## Activity -/

namespace Replay

variable {P P' : Program} {r r' s s' : Replay} {w w' v v' : World}

/-- Where all function stacks are the same, the same functions are active. -/
theorem Shows.activeCount_congr (h : Shows P r w) (h' : Shows P' r' w')
    (hslots : ∀ u, (w' u).story.slots = (w u).story.slots) (fn : FnId) :
    r'.tracker.functions.activeCount fn = r.tracker.functions.activeCount fn :=
  Tracker.activeCount_congr h.inv h'.inv (fun u => by rw [h.slots, h'.slots, hslots]) fn

/-- The same function becomes active. -/
theorem Shows.wakes_congr (h : Shows P r w) (h' : Shows P' r' w') (hs : Shows P s v) (hs' : Shows P' s' v')
    (hbefore : ∀ u, (w' u).story.slots = (w u).story.slots) (hafter : ∀ u, (v' u).story.slots = (v u).story.slots)
    (fn : FnId) : Tracker.wakes fn r'.tracker.functions s'.tracker.functions =
      Tracker.wakes fn r.tracker.functions s.tracker.functions := by
  rw [Tracker.wakes, Tracker.wakes, h.activeCount_congr h' hbefore, hs.activeCount_congr hs' hafter]

end Replay

/-! ## Chains and sites -/

namespace Replay

variable {P : Program} {trace : Trace} {r r' : Replay} {w : World} {u : ThreadId}

/-- There is a context for the chain. -/
def Knows (r : Replay) (chain : List FnId) : Prop := ∃ c x, r.tracker.contexts.get? c = some x ∧ x.chain = chain

/-- There is an anchor for the site of the thread. -/
def Occupies (r : Replay) (u : ThreadId) (s : Site) : Prop := ∃ a, r.Sits u a s

/-- What an event left of what there was. -/
structure Changes (r' : Replay) (occupied : ThreadId → Site → Prop) (known : List FnId → Prop) (totals : Totals) :
    Prop where
  seated : r'.Seated
  occupied : ∀ u s, r'.Occupies u s ↔ occupied u s
  known : ∀ chain, r'.Knows chain ↔ known chain
  totals : r'.tracker.totals = totals

/-- Where only a thread moved on, the tables are as they were. -/
theorem Changes.aside (hseated : r.Seated) {t : Tracker} (hcontexts : t.contexts = r.tracker.contexts)
    (hanchors : t.anchors = r.tracker.anchors) :
    Changes { r with tracker := t } r.Occupies r.Knows t.totals := by
  have hsits : Sits { r with tracker := t } = r.Sits := sits_congr hcontexts hanchors rfl
  refine ⟨fun a y hy => ?_, fun u s => ?_, fun chain => ?_, rfl⟩
  · rw [hsits]
    exact hseated a y (hanchors ▸ hy)
  · rw [Occupies, Occupies, hsits]
  · show (∃ c x, t.contexts.get? c = some x ∧ x.chain = chain) ↔ _
    rw [hcontexts]
    rfl

/-- A signal is counted. -/
theorem play_signal (hseated : r.Seated) {i : Nat} {tid : UInt32} {signal : Int32}
    (hplay : play trace r i (.signal tid signal) = .ok r') :
    Changes r' r.Occupies r.Knows r.tracker.totals.signal := by
  obtain ⟨t, henter, rfl⟩ := play_signal_eq.mp hplay
  obtain ⟨-, -, -, hcontexts, hanchors, -⟩ := Tracker.Stays.switchTo r.tracker ⟨tid.toNat⟩
  rw [← Tracker.enterHandler_totals henter]
  obtain ⟨s, rfl⟩ := Tracker.enterHandler_eq henter
  exact .aside hseated hcontexts hanchors

/-- A handler that returns leaves everything as it was. -/
theorem play_signalReturn (h : r.tracker.Inv) (hseated : r.Seated) {i : Nat} {tid : UInt32} {signal : Int32}
    (hplay : play trace r i (.signalReturn tid signal) = .ok r') :
    Changes r' r.Occupies r.Knows r.tracker.totals := by
  obtain ⟨-, t, hexit, rfl⟩ := play_signalReturn_eq.mp hplay
  obtain ⟨-, -, -, hcontexts, hanchors, -⟩ := Tracker.Stays.switchTo r.tracker ⟨tid.toNat⟩
  obtain ⟨sc, hs⟩ := (h.state ⟨tid.toNat⟩).1.story
  obtain ⟨-, hu, -⟩ := Tracker.exitHandler_tells hexit hs
  rw [← Tracker.exitHandler_totals h hexit]
  exact .aside hseated (hu.contexts.trans hcontexts) (hu.anchors.trans hanchors)

/-- The block of a visit counts with its transfer, its site is occupied, and its chain is known. -/
theorem Visited.changes {pos : Position} {place : Nat} {exit : Option Nat} {d : BlockDecl} {id : BlockId} {r₁ : Replay}
    {a : AnchorId} {t : Tracker} {y : Anchor} (vis : Visited trace r pos place exit d id r₁ a t y r') (h : Shows P r w)
    (o : r.tracker.InOrder) (hseated : r.Seated) {b : Block} (hb : trace.toBlock d = .ok b)
    (hP : P.block place = some b) :
    Changes r'
      (fun v s => r.Occupies v s ∨ v = pos.thread ∧ s = P.site pos.sp place b (w pos.thread))
      (fun chain => r.Knows chain ∨ chain = (P.site pos.sp place b (w pos.thread)).chain)
      (r.tracker.totals.block ((w pos.thread).transfer P.blockOf P.tailCalls b pos.sp) (P.skips b.fn)
        (Tracker.wakes b.fn r.tracker.functions r'.tracker.functions)) := by
  obtain ⟨blocks, live, p, hr₁, h₁, hsits, hid, hblock, hthread, -, e⟩ := vis.entered_eq h hb hP o.contexts
  have hseated₁ : r₁.Seated := by
    intro a y hy
    rw [hr₁] at hy
    obtain ⟨s, hs⟩ := hseated a y hy
    exact ⟨s, (hsits ..).mpr hs⟩
  have hanchors₁ : r₁.tracker.anchors.Filed := by
    rw [hr₁]
    exact o.anchors
  have hslots := h₁.inv.tables.anchorSlots
  have m := vis.bills h hb hP h₁ hid hblock hthread e hanchors₁ hseated₁
  have hcontexts₁ : r₁.tracker.contexts = r.tracker.contexts := by rw [hr₁]
  obtain ⟨z, hz, hchain⟩ := m.context
  refine ⟨m.seated e hslots hseated₁, fun v s => ?_, fun chain => ?_, ?_⟩
  · constructor
    · rintro ⟨b, hs⟩
      obtain hs | ⟨rfl, -, rfl⟩ := (m.sits ..).mp hs
      · exact .inl ⟨b, (hsits ..).mp hs⟩
      · exact .inr ⟨rfl, rfl⟩
    · rintro (⟨b, hs⟩ | ⟨rfl, rfl⟩)
      · exact ⟨b, m.old ((hsits ..).mpr hs)⟩
      · exact ⟨a, m.me⟩
  · have hknown := ContextTable.known_iff e.contexts.2 m.kept hz chain
    rw [hcontexts₁, hchain] at hknown
    exact hknown.trans (or_comm.trans (or_congr_right eq_comm))
  · obtain ⟨b', hb', hget⟩ := h₁.resident place id hid
    rw [hP] at hb'
    cases hb'
    have hentries := Tracker.enterBlock_entries h₁.inv vis.entered hget
    have hafter : r'.tracker = t.setExitsPassed (exit.getD d.finalIndex) := by rw [vis.result]
    have htotals := e.totals (hr₁ ▸ o.numbered) (by rw [hafter]; exact hentries)
    rw [htotals, hr₁, hafter]
    rfl

/-- A block that was dropped takes its sites with it. -/
theorem play_discard (h : Shows P r w) (hseated : r.Seated) {i : Nat} {place : UInt32}
    (hplay : play trace r i (.discard place) = .ok r') :
    Changes r' (fun u s => r.Occupies u s ∧ s.place ≠ place.toNat) r.Knows r.tracker.totals := by
  obtain ⟨hnone, rfl⟩ | ⟨id, o, hotspots, hid, ho, -, hr'⟩ := playDiscard_eq (lift_eq_ok.mp hplay)
  · refine ⟨hseated, fun u s => ⟨fun hs => ⟨hs, ?_⟩, fun hs => hs.1⟩, fun _ => Iff.rfl, rfl⟩
    -- Nothing lives at the place, so no site there is occupied.
    obtain ⟨a, y, -, -, -, hlive, -⟩ := hs
    intro e
    rw [e, hnone] at hlive
    cases hlive
  · obtain ⟨A, B, L, hdiscard, c, -⟩ := Tracker.discardBlock_live ho
    have htotals := Tracker.discardBlock_totals r.tracker id
    rw [hdiscard] at hr' htotals
    have hlive : ∀ q, (r.live.setIfInBounds place.toNat none)[q]?.join = if q = place.toNat then none else r.idOf q :=
      join_setIfInBounds (size_of_idOf hid) none
    have hsits : ∀ {u a s}, r'.Sits u a s ↔ r.Sits u a s ∧ s.place ≠ place.toNat := by
      intro u a s
      apply h.sits_cleared
      · exact hid
      · rw [hr']
        exact c
      · rw [hr']
      · rw [hr']
        exact hlive
    subst hr'
    refine ⟨fun a y hy => ?_, fun u s => ?_, fun _ => Iff.rfl, htotals⟩
    · obtain ⟨y₀, hy₀, hne, hk, -⟩ := c.of_anchor h.inv.tables hy
      obtain ⟨s, hs⟩ := hseated a y₀ hy₀
      have hplace : s.place ≠ place.toNat := by
        intro e
        obtain ⟨z, -, hz, -, hid', -⟩ := hs
        cases hy₀.symm.trans hz
        rw [e] at hid'
        exact hne (Option.some.inj (hid'.symm.trans hid))
      rw [hk]
      exact ⟨s, hsits.mpr ⟨hs, hplace⟩⟩
    · rw [Occupies, Occupies, exists_and_right.symm]
      exact exists_congr fun a => hsits

end Replay

/-! ## After some events -/

namespace Trace

variable {trace : Trace} {config : Config} {r : Replay}

/-- At any time every anchor is for a site. -/
theorem after_seated (hvalid : trace.check = .ok ()) {n : Nat} (hr : trace.after config n = .ok r) : r.Seated := by
  obtain ⟨hblocks, -⟩ := check_eq_ok hvalid
  have hconfig := config_ok hr
  refine after_induction (fun r hr a y hy => ?_) (fun n e r r' he hr h hplay => ?_) hr
  · obtain ⟨C, A, F, -, hA, rfl, -⟩ := Replay.start_eq hr
    obtain ⟨-, -, hnone⟩ := Directory.ofBuckets_filed hA
    exact absurd hy (hnone a y)
  · obtain ⟨w, -, hshows⟩ := after_eq hvalid hconfig hr
    cases e with
    | block tid sp place exit =>
      obtain ⟨d, b, id, r₁, a, t, y, vis, hb, hP⟩ := Replay.play_visited hblocks hplay
      exact (vis.changes hshows (after_inOrder hr) h hb hP).seated
    | signal tid signal => exact (Replay.play_signal h hplay).seated
    | signalReturn tid signal => exact (Replay.play_signalReturn hshows.inv h hplay).seated
    | discard place => exact (Replay.play_discard hshows h hplay).seated

end Trace

/-! ## After the last event -/

/-- What was left at the end returned, so that as many calls returned as were made. -/
theorem Replay.close_totals {P : Program} {r : Replay} {w : World} (h : Shows P r w) (o : r.tracker.InOrder)
    {trace : Trace} {s : Summary} (hs : r.close trace = .ok s) :
    s.contexts = r.tracker.contexts.size ∧ s.anchors = r.tracker.anchors.size ∧
      r.tracker.totals = ⟨s.calls, s.entries, s.stats.calls, s.stats.promotedCalls, s.stats.returnsAsJumps,
        s.stats.emulatedCalls, s.stats.signals⟩ ∧ s.stats.returns = s.stats.calls := by
  obtain ⟨s₀, hs₀, hcontexts, hanchors, -, hcalls, hentries, hstats, -⟩ := close_eq h trace
  rw [hs] at hs₀
  cases hs₀
  refine ⟨hcontexts, hanchors, ?_, ?_⟩
  · rw [hcalls, hentries, hstats]
    rfl
  · rw [hstats]
    exact o.balanced.symm

end CallGraph
