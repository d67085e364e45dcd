/-
  CallGraph.Proofs.Interleaving — the order in which threads take turns does not matter.

  Two traces that interleave the same events of every thread (`Trace.Interleaves`) come to chronicles
  with the same diaries, so their visits are the same but for the order. A summary counts visits, so
  the two replays are summed up to the same (`Summary.Tells.agrees`), and what a block is billed to is
  found in the diary of its thread. So the call graph does not depend on the interleaving
  (`Trace.replay_of_interleaves`), as long as no code is dropped.
-/

import CallGraph.Proofs.Chronicle

namespace CallGraph

/-! ## Summaries that agree -/

/-- The counts that do not depend on the order of threads. -/
structure Stats.Agrees (s s' : Stats) : Prop where
  blocksExecuted : s'.blocksExecuted = s.blocksExecuted
  calls : s'.calls = s.calls
  returns : s'.returns = s.returns
  promotedCalls : s'.promotedCalls = s.promotedCalls
  returnsAsJumps : s'.returnsAsJumps = s.returnsAsJumps
  emulatedCalls : s'.emulatedCalls = s.emulatedCalls
  lruHits : s'.lruHits = s.lruHits
  signals : s'.signals = s.signals

/-- Summaries of the same call graph; contexts with equally many executions may be ranked in another order. -/
structure Summary.Agrees (s s' : Summary) : Prop where
  contexts : s'.contexts = s.contexts
  anchors : s'.anchors = s.anchors
  arcs : s'.arcs = s.arcs
  calls : s'.calls = s.calls
  stats : s.stats.Agrees s'.stats
  hotspots : (s.hotspots.map fun h => (h.context, h.depth, h.blocks, h.executions)).Perm
    (s'.hotspots.map fun h => (h.context, h.depth, h.blocks, h.executions))

theorem Program.outline_perm (P : Program) {visits visits' : List Visit} (h : visits.Perm visits') :
    P.outline visits' = P.outline visits := by
  funext chain
  rw [outline, outline, distinct_perm ((h.filter _).map _), h.countP_eq]

/-- Summaries of the same visits agree, in whatever order these were made. -/
theorem Summary.Tells.agrees {P : Program} {s s' : Summary} {visits visits' : List Visit} {n : Nat}
    (h : s.Tells P visits n) (h' : s'.Tells P visits' n) (hperm : visits.Perm visits') : s.Agrees s' := by
  have hcalls : s'.stats.calls = s.stats.calls := by rw [h.stats.calls, h'.stats.calls, hperm.countP_eq]
  refine ⟨?_, ?_, ?_, ?_, ⟨?_, hcalls, ?_, ?_, ?_, ?_, ?_, ?_⟩, ?_⟩
  · rw [h.contexts, h'.contexts, distinct_perm (hperm.map _)]
  · rw [h.anchors, h'.anchors, distinct_perm (hperm.map _)]
  · rw [h.arcs, h'.arcs, distinct_perm (hperm.filterMap _)]
  · rw [h.calls, h'.calls, hperm.countP_eq]
  · rw [h.stats.blocksExecuted, h'.stats.blocksExecuted, hperm.length_eq]
  · rw [h.returns, h'.returns, hcalls]
  · rw [h.stats.promotedCalls, h'.stats.promotedCalls, hperm.countP_eq]
  · rw [h.stats.returnsAsJumps, h'.stats.returnsAsJumps, hperm.countP_eq]
  · rw [h.stats.emulatedCalls, h'.stats.emulatedCalls, hperm.countP_eq]
  · rw [h.stats.lruHits, h'.stats.lruHits, hperm.countP_eq]
  · rw [h.stats.signals, h'.stats.signals]
  · have hrows := h'.hotspots
    rw [P.outline_perm hperm] at hrows
    exact h.hotspots.trans (((hperm.map _).dedup.map _).trans hrows.symm)

/-! ## Chronicles of interleavings -/

namespace Chronicle

variable {P : Program} {c c' c₀ : Chronicle} {events events' : List Event}

theorem run_diary (hthreads : ∀ e ∈ events, ∃ u, e.thread? = some u) (h : c₀.run P events = some c) (u : ThreadId) :
    (c₀.diary u).run P (events.filter (Event.isOf u)) = some (c.diary u) := by
  obtain ⟨d, hd, hdiary⟩ | ⟨hnone, -⟩ := run_diaries (P := P) hthreads c₀
  · rw [h] at hd
    cases hd
    exact hdiary u
  · rw [h] at hnone
    cases hnone

/-- Where every thread does the same, one interleaving comes to an end if the other does. -/
theorem run_of_interleaving (hthreads : ∀ e ∈ events, ∃ u, e.thread? = some u)
    (hthreads' : ∀ e ∈ events', ∃ u, e.thread? = some u)
    (h : ∀ u, events'.filter (Event.isOf u) = events.filter (Event.isOf u)) (hc : c₀.run P events = some c) :
    ∃ c', c₀.run P events' = some c' := by
  obtain ⟨c', hc', -⟩ | ⟨-, u, hnone⟩ := run_diaries (P := P) hthreads' c₀
  · exact ⟨c', hc'⟩
  · rw [h u, run_diary hthreads hc u] at hnone
    cases hnone

end Chronicle

/-! ## The same block event -/

section
variable {α : Type} {q : α → Bool} {L X X' : List α} {e e' : α}

theorem countP_lt_of_longer (hX : X ++ [e] <+: L) (hX' : X' <+: L) (he : q e = true) (hlt : X.length < X'.length) :
    X.countP q < X'.countP q := by
  have hprefix : X ++ [e] <+: X' := List.prefix_of_prefix_length_le hX hX' (by rwa [List.length_append])
  have hle := hprefix.sublist.countP_le (p := q)
  rw [List.countP_append, List.countP_singleton, if_pos he] at hle
  omega

/-- Parts of a list up to a member of a kind are told by how many of the kind come before it. -/
theorem prefix_eq_of_countP (hX : X ++ [e] <+: L) (hX' : X' ++ [e'] <+: L) (he : q e = true) (he' : q e' = true)
    (hk : X.countP q = X'.countP q) : X ++ [e] = X' ++ [e'] := by
  have hlength : (X ++ [e]).length = (X' ++ [e']).length := by
    simp only [List.length_append, List.length_singleton, Nat.add_right_cancel_iff]
    obtain h | h | h := Nat.lt_trichotomy X.length X'.length
    · exact absurd hk (Nat.ne_of_lt (countP_lt_of_longer hX ((List.prefix_append ..).trans hX') he h))
    · exact h
    · exact absurd hk.symm (Nat.ne_of_lt (countP_lt_of_longer hX' ((List.prefix_append ..).trans hX) he' h))
  exact (List.prefix_of_prefix_length_le hX hX' (Nat.le_of_eq hlength)).eq_of_length hlength

end

/-- A block of a thread runs. -/
def Event.isBlockOf (u : ThreadId) : Event → Bool
  | .block tid .. => ThreadId.mk tid.toNat = u
  | _ => false

theorem Event.isOf_of_isBlockOf {u : ThreadId} {e : Event} (h : e.isBlockOf u = true) : e.isOf u = true := by
  cases e with
  | block tid => exact decide_eq_true (congrArg some (of_decide_eq_true h))
  | signal | signalReturn | discard => cases h

namespace Trace

variable {trace trace' : Trace} {config : Config}

/-- The event at a place is the block event of a thread that so many come before. -/
structure BlockAt (trace : Trace) (u : ThreadId) (k n : Nat) : Prop where
  event : ∃ e, trace.events[n]? = some e ∧ e.isBlockOf u = true
  before : (trace.events.take n).countP (Event.isBlockOf u) = k

/-- Traces of the same program and settings in which every thread does the same, and no code is dropped. -/
structure Interleaves (trace trace' : Trace) : Prop where
  config : trace'.config = trace.config
  objects : trace'.objects = trace.objects
  functions : trace'.functions = trace.functions
  blocks : trace'.blocks = trace.blocks
  kept : ∀ place, .discard place ∉ trace.events
  kept' : ∀ place, .discard place ∉ trace'.events
  threads : ∀ u, trace'.events.filter (Event.isOf u) = trace.events.filter (Event.isOf u)

namespace Interleaves

theorem symm (h : trace.Interleaves trace') : trace'.Interleaves trace :=
  ⟨h.config.symm, h.objects.symm, h.functions.symm, h.blocks.symm, h.kept', h.kept, fun u => (h.threads u).symm⟩

theorem thread (h : trace.Interleaves trace') : ∀ e ∈ trace.events, ∃ u, e.thread? = some u := by
  intro e he
  cases e with
  | block | signal | signalReturn => exact ⟨_, rfl⟩
  | discard place => exact absurd he (h.kept place)

theorem program (h : trace.Interleaves trace') (config : Config) : trace'.program config = trace.program config := by
  have htoBlock : trace'.toBlock = trace.toBlock := by
    funext d
    rw [toBlock, toBlock, h.functions]
  have hblock : trace'.block? = trace.block? := by
    funext place
    rw [block?, block?, h.blocks, htoBlock]
  have hskips : trace'.skips config = trace.skips config := by
    funext fn
    rw [skips, skips, h.functions]
  rw [Trace.program, Trace.program, hblock, hskips, h.functions]

theorem events_perm (h : trace.Interleaves trace') : trace.events.Perm trace'.events := by
  refine perm_of_filter_eq Event.thread? fun o => ?_
  cases o with
  | some u => exact (h.threads u).symm
  | none =>
    have hnone : ∀ {t t' : Trace}, t.Interleaves t' → t.events.filter (fun e => e.thread? = none) = [] := by
      intro t t' h
      refine List.filter_eq_nil_iff.mpr fun e he hnone => ?_
      obtain ⟨u, hu⟩ := h.thread e he
      rw [of_decide_eq_true hnone] at hu
      cases hu
    rw [hnone h, hnone h.symm]

/-- Up to the same block event of a thread the thread did the same. -/
theorem upTo (h : trace.Interleaves trace') {u : ThreadId} {k n n' : Nat} (hn : trace.BlockAt u k n)
    (hn' : trace'.BlockAt u k n') :
    (trace'.events.take (n' + 1)).filter (Event.isOf u) = (trace.events.take (n + 1)).filter (Event.isOf u) := by
  have hsplit : ∀ {l : List Event} {i : Nat} {e : Event}, l[i]? = some e → e.isBlockOf u = true →
      (l.take (i + 1)).filter (Event.isOf u) = (l.take i).filter (Event.isOf u) ++ [e] := by
    intro l i e he hblock
    rw [List.take_add_one, he, Option.toList_some, List.filter_append,
      List.filter_cons_of_pos (Event.isOf_of_isBlockOf hblock)]
    rfl
  have hcount : ∀ l : List Event,
      (l.filter (Event.isOf u)).countP (Event.isBlockOf u) = l.countP (Event.isBlockOf u) := by
    intro l
    rw [List.countP_filter]
    refine List.countP_congr fun e _ => ?_
    rw [Bool.and_eq_true]
    exact ⟨fun hb => hb.1, fun hb => ⟨hb, Event.isOf_of_isBlockOf hb⟩⟩
  obtain ⟨⟨e, he, hblock⟩, hk⟩ := hn
  obtain ⟨⟨e', he', hblock'⟩, hk'⟩ := hn'
  -- Both parts are prefixes of what the thread did, and end at the same of its blocks.
  have hprefix : (trace.events.take (n + 1)).filter (Event.isOf u) <+: trace.events.filter (Event.isOf u) :=
    (List.take_prefix ..).filter _
  have hprefix' : (trace'.events.take (n' + 1)).filter (Event.isOf u) <+: trace.events.filter (Event.isOf u) := by
    rw [← h.threads u]
    exact (List.take_prefix ..).filter _
  rw [hsplit he hblock] at hprefix ⊢
  rw [hsplit he' hblock'] at hprefix' ⊢
  refine (prefix_eq_of_countP hprefix hprefix' hblock hblock' ?_).symm
  rw [hcount, hcount, hk, hk']

end Interleaves

/-! ## Replays of interleavings -/

/-- A replay that comes to a summary comes to the visits that this tells of. -/
theorem replay_tells (hvalid : trace.check = .ok ()) (hthreads : ∀ e ∈ trace.events, ∃ u, e.thread? = some u)
    {s : Summary} (hs : trace.replay config = .ok s) :
    config.Usable ∧ ∃ c, Chronicle.run (trace.program config) {} trace.events = some c ∧
      s.Tells (trace.program config) c.visits (trace.events.countP Event.isSignal) := by
  obtain ⟨r, hr, hclose⟩ := after_of_replay hs
  have hconfig := config_ok hr
  obtain ⟨c, hc, hshows, hbooks⟩ := after_books hvalid hconfig hthreads hr
  rw [List.take_length] at hc hbooks
  obtain ⟨s', hs', htells⟩ := hbooks.close hshows trace
  rw [hs'] at hclose
  cases hclose
  exact ⟨hconfig, c, hc, htells⟩

theorem Interleaves.replays (h : trace.Interleaves trace') (hvalid : trace.check = .ok ())
    (hvalid' : trace'.check = .ok ()) {s : Summary} (hs : trace.replay config = .ok s) :
    ∃ s', trace'.replay config = .ok s' := by
  obtain ⟨hconfig, c, hc, -⟩ := replay_tells hvalid h.thread hs
  rw [replay_ok_iff, after_ok_iff hvalid' hconfig, worldAfter, List.take_length, h.program config]
  obtain ⟨c', hc'⟩ := Chronicle.run_of_interleaving h.thread h.symm.thread h.threads hc
  refine ⟨c'.world, ?_⟩
  rw [← Chronicle.run_world trace'.events {}, hc']
  rfl

theorem Interleaves.agrees (h : trace.Interleaves trace') (hvalid : trace.check = .ok ())
    (hvalid' : trace'.check = .ok ()) {s s' : Summary} (hs : trace.replay config = .ok s)
    (hs' : trace'.replay config = .ok s') : s.Agrees s' := by
  obtain ⟨-, c, hc, htells⟩ := replay_tells hvalid h.thread hs
  obtain ⟨-, c', hc', htells'⟩ := replay_tells hvalid' h.symm.thread hs'
  rw [h.program config] at hc' htells'
  rw [← h.events_perm.countP_eq] at htells'
  refine htells.agrees htells' (perm_of_filter_eq Visit.thread fun u => ?_)
  have hdiary := Chronicle.run_diary h.thread hc u
  have hdiary' := Chronicle.run_diary h.symm.thread hc' u
  rw [h.threads u, hdiary] at hdiary'
  exact congrArg Diary.visits (Option.some.inj hdiary')

/-- As far as a replay without discards comes, a block is billed to the chain that its thread has open then. -/
theorem after_billed_diary (hvalid : trace.check = .ok ()) (hthreads : ∀ e ∈ trace.events, ∃ u, e.thread? = some u)
    {s : Summary} (hs : trace.replay config = .ok s) {u : ThreadId} {k n : Nat} (hn : trace.BlockAt u k n) :
    ∃ r d, trace.after config (n + 1) = .ok r ∧
      (Chronicle.diary {} u).run (trace.program config) ((trace.events.take (n + 1)).filter (Event.isOf u)) = some d ∧
      r.billed = some ((trace.program config).cut (FnStack.chain ⟨d.actor.story.slots⟩)) := by
  obtain ⟨hconfig, c, hc, -⟩ := replay_tells hvalid hthreads hs
  rw [← List.take_append_drop (n + 1) trace.events, Chronicle.run, List.foldlM_append] at hc
  obtain ⟨c₁, hc₁, -⟩ := Option.bind_eq_some_iff.mp hc
  have hw : trace.worldAfter config (n + 1) = some c₁.world := by
    have hworld := Chronicle.run_world (P := trace.program config) (trace.events.take (n + 1)) {}
    rw [Chronicle.run, hc₁] at hworld
    exact hworld.symm
  obtain ⟨r, hr⟩ := (after_ok_iff hvalid hconfig).mpr ⟨_, hw⟩
  have hdiary := Chronicle.run_diary (fun e he => hthreads e (List.mem_of_mem_take he)) hc₁ u
  refine ⟨r, _, hr, hdiary, ?_⟩
  obtain ⟨e, he, hblock⟩ := hn.event
  cases e with
  | block tid sp place exit =>
    obtain rfl := of_decide_eq_true hblock
    exact after_billed hvalid hconfig he hr hw
  | signal | signalReturn | discard => cases hblock

/-- The call graph does not depend on how threads take turns. Of two valid traces that interleave the same events of
every thread, and drop no code, both come to a summary or none does. The summaries agree, and the block events of
every thread are billed to the same chains. -/
theorem replay_of_interleaves (h : trace.Interleaves trace') (hvalid : trace.check = .ok ())
    (hvalid' : trace'.check = .ok ()) (config : Config) :
    ((∃ s, trace.replay config = .ok s) ↔ ∃ s, trace'.replay config = .ok s) ∧
      ∀ s s', trace.replay config = .ok s → trace'.replay config = .ok s' →
        s.Agrees s' ∧ ∀ u k n n', trace.BlockAt u k n → trace'.BlockAt u k n' →
          ∃ r r' chain, trace.after config (n + 1) = .ok r ∧ trace'.after config (n' + 1) = .ok r' ∧
            r.billed = some chain ∧ r'.billed = some chain := by
  refine ⟨⟨?_, ?_⟩, fun s s' hs hs' => ⟨h.agrees hvalid hvalid' hs hs', fun u k n n' hn hn' => ?_⟩⟩
  · intro hs
    obtain ⟨s, hs⟩ := hs
    exact h.replays hvalid hvalid' hs
  · intro hs
    obtain ⟨s, hs⟩ := hs
    exact h.symm.replays hvalid' hvalid hs
  · obtain ⟨r, d, hr, hd, hbilled⟩ := after_billed_diary hvalid h.thread hs hn
    obtain ⟨r', d', hr', hd', hbilled'⟩ := after_billed_diary hvalid' h.symm.thread hs' hn'
    rw [h.program config, h.upTo hn hn', hd] at hd'
    cases hd'
    rw [h.program config] at hbilled'
    exact ⟨r, r', _, hr, hr', hbilled, hbilled'⟩

/-- `main` calls `work` on two threads, the one after the other. -/
def serialRun : Trace where
  objects := #["program"]
  functions := #[{ name := "main", object := 0 }, { name := "work", object := 0 }]
  blocks := #[
    { addr := ⟨100⟩, function := 0, isEntry := true, exits := [{ kind := .call, size := 5 }] },
    { addr := ⟨200⟩, function := 1, isEntry := true, exits := [{ kind := .ret, size := 1 }] },
    { addr := ⟨105⟩, function := 0, exits := [{ kind := .jump, size := 1 }] }]
  events := [.block 1 ⟨1000⟩ 0 none, .block 1 ⟨990⟩ 1 none, .signal 1 10, .block 1 ⟨900⟩ 1 none, .signalReturn 1 10,
    .block 1 ⟨1000⟩ 2 none, .block 2 ⟨2000⟩ 0 none, .block 2 ⟨1990⟩ 1 none, .block 2 ⟨2000⟩ 2 none]

/-- The same, where the threads take turns. -/
def turnsRun : Trace :=
  { serialRun with
    events := [.block 2 ⟨2000⟩ 0 none, .block 1 ⟨1000⟩ 0 none, .block 2 ⟨1990⟩ 1 none, .block 1 ⟨990⟩ 1 none,
      .signal 1 10, .block 2 ⟨2000⟩ 2 none, .block 1 ⟨900⟩ 1 none, .signalReturn 1 10, .block 1 ⟨1000⟩ 2 none] }

theorem replay_of_interleaves_turnsRun :
    ∃ s s' : Summary, ∃ r r' : Replay, serialRun.replay { contextBuckets := 3, anchorBuckets := 3 } = .ok s ∧
      turnsRun.replay { contextBuckets := 3, anchorBuckets := 3 } = .ok s' ∧ s.Agrees s' ∧
      serialRun.after { contextBuckets := 3, anchorBuckets := 3 } 8 = .ok r ∧
      turnsRun.after { contextBuckets := 3, anchorBuckets := 3 } 3 = .ok r' ∧
      r.billed = some [⟨1⟩, ⟨0⟩] ∧ r'.billed = some [⟨1⟩, ⟨0⟩] := by
  have hthreads : ∀ u, turnsRun.events.filter (Event.isOf u) = serialRun.events.filter (Event.isOf u) := by
    rintro ⟨i⟩
    rcases i with _ | _ | _ | i <;> rfl
  have hinterleaves : serialRun.Interleaves turnsRun :=
    ⟨rfl, rfl, rfl, rfl, fun place => by simp [serialRun], fun place => by simp [turnsRun], hthreads⟩
  have hvalid : serialRun.check = .ok () := by decide +kernel
  obtain ⟨hiff, hsame⟩ := replay_of_interleaves hinterleaves hvalid (by decide +kernel)
    { contextBuckets := 3, anchorBuckets := 3 }
  have hlast : (serialRun.after { contextBuckets := 3, anchorBuckets := 3 } 9).map Replay.billed = .ok (some [⟨0⟩]) := by
    decide +kernel
  obtain ⟨r₉, hr₉, -⟩ := map_eq_ok.mp hlast
  obtain ⟨s, hs⟩ := replay_ok_iff.mpr ⟨r₉, hr₉⟩
  obtain ⟨s', hs'⟩ := hiff.mp ⟨s, hs⟩
  obtain ⟨hagrees, hbilled⟩ := hsame s s' hs hs'
  obtain ⟨r, r', chain, hr, hr', hchain, hchain'⟩ := hbilled ⟨2⟩ 1 7 2 ⟨⟨_, rfl, rfl⟩, rfl⟩ ⟨⟨_, rfl, rfl⟩, rfl⟩
  have hknown : (serialRun.after { contextBuckets := 3, anchorBuckets := 3 } 8).map Replay.billed =
      .ok (some [⟨1⟩, ⟨0⟩]) := by decide +kernel
  rw [hr] at hknown
  cases hchain.symm.trans (Except.ok.inj hknown)
  exact ⟨s, s', r, r', hs, hs', hagrees, hr, hr', hchain, hchain'⟩

end Trace
end CallGraph
