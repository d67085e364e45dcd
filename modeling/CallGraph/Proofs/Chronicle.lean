/-
  CallGraph.Proofs.Chronicle — a world with its visits, thread by thread.

  A `Diary` is one thread with its own visits, and what an event does to the diary of its thread depends
  on that diary alone. A `Chronicle` has the visits of all threads in the order in which they happened.
  Running events of all threads comes to the diaries that running each thread's own events comes to, and
  stops exactly where one of these stops (`Chronicle.run_diaries`). A replay without discards follows its
  chronicle, and its summary says what the visits say (`Trace.after_books`, `Books.close`).
-/

import CallGraph.Proofs.Books

namespace CallGraph

/-- Lists with the same members for every key, in the same order, are the same but for their order. -/
theorem perm_of_filter_eq {α κ : Type} [DecidableEq α] [DecidableEq κ] {l l' : List α} (key : α → κ)
    (h : ∀ k, l.filter (fun a => key a = k) = l'.filter fun a => key a = k) : l.Perm l' := by
  refine List.perm_iff_count.mpr fun a => ?_
  have hcount : ∀ l : List α, (l.filter fun b => key b = key a).count a = l.count a :=
    fun l => List.count_filter (decide_eq_true rfl)
  rw [← hcount l, ← hcount l', h]

/-! ## Diaries -/

def Visit.isOf (u : ThreadId) (v : Visit) : Bool := v.thread = u

def Event.isOf (u : ThreadId) (e : Event) : Bool := e.thread? = some u

def Event.isSignal : Event → Bool
  | .signal .. => true
  | _ => false

/-- The visits after an event, the latest in front. -/
def Program.note (P : Program) (sc : Actor) (visits : List Visit) : Event → List Visit
  | .block tid sp place _ =>
    (P.block place.toNat).elim visits fun b => P.visitOf visits ⟨tid.toNat⟩ sp place.toNat b sc :: visits
  | _ => visits

/-- A thread with its visits. -/
structure Diary where
  actor : Actor
  visits : List Visit

namespace Diary

variable (P : Program)

def play (d : Diary) (e : Event) : Option Diary :=
  (P.act e d.actor).map fun sc => { actor := sc, visits := P.note d.actor d.visits e }

def run (d : Diary) (events : List Event) : Option Diary := events.foldlM (play P) d

end Diary

/-- A world with the visits that it came from. -/
structure Chronicle where
  world : World := .initial
  visits : List Visit := []

namespace Chronicle

variable (P : Program)

/-- What the chronicle has of one thread. -/
def diary (c : Chronicle) (u : ThreadId) : Diary := { actor := c.world u, visits := c.visits.filter (Visit.isOf u) }

def play (c : Chronicle) (e : Event) : Option Chronicle :=
  (c.world.play P e).map fun w =>
    { world := w, visits := (e.thread?.map fun u => P.note (c.world u) c.visits e).getD c.visits }

def run (c : Chronicle) (events : List Event) : Option Chronicle := events.foldlM (play P) c

end Chronicle

section
variable {P : Program} {visits : List Visit} {e : Event} {u : ThreadId}

theorem Visit.follower_filter (visits : List Visit) (u : ThreadId) (s : Site) :
    follower (visits.filter (isOf u)) u s = follower visits u s := by
  rw [follower, follower, List.find?_filter]
  congr 2
  funext v
  by_cases h : v.thread = u <;> simp [isOf, h]

/-- Where a visit is noted, only the visits of the same thread matter. -/
theorem Program.note_filter (hu : e.thread? = some u) (sc : Actor) (visits : List Visit) (v : ThreadId) :
    (P.note sc visits e).filter (Visit.isOf v) =
      if v = u then P.note sc (visits.filter (Visit.isOf v)) e else visits.filter (Visit.isOf v) := by
  cases e with
  | block tid sp place exit =>
    obtain rfl := Option.some.inj hu
    simp only [Program.note]
    cases P.block place.toNat with
    | none => simp only [Option.elim_none, ite_self]
    | some b =>
      simp only [Option.elim_some]
      by_cases hv : v = ⟨tid.toNat⟩
      · subst hv
        have hsame : P.visitOf (visits.filter (Visit.isOf ⟨tid.toNat⟩)) ⟨tid.toNat⟩ sp place.toNat b sc =
            P.visitOf visits ⟨tid.toNat⟩ sp place.toNat b sc := by
          have hfollower : Visit.follower (visits.filter (Visit.isOf ⟨tid.toNat⟩)) ⟨tid.toNat⟩ =
              Visit.follower visits ⟨tid.toNat⟩ := funext (Visit.follower_filter visits _)
          rw [Program.visitOf, Program.visitOf, hfollower]
        rw [if_pos rfl, hsame]
        exact List.filter_cons_of_pos (decide_eq_true rfl)
      · rw [if_neg hv]
        exact List.filter_cons_of_neg fun h => hv (of_decide_eq_true h).symm
  | signal | signalReturn | discard => simp only [Program.note, ite_self]

end

namespace Chronicle

variable {P : Program} {c : Chronicle} {e : Event} {u : ThreadId}

/-- An event does to the chronicle what it does to the diary of its thread, and nothing else. -/
theorem play_diary (hu : e.thread? = some u) :
    (∃ c', c.play P e = some c' ∧ (c.diary u).play P e = some (c'.diary u) ∧ ∀ v, v ≠ u → c'.diary v = c.diary v) ∨
      (c.play P e = none ∧ (c.diary u).play P e = none) := by
  cases hact : P.act e (c.world u) with
  | none => exact .inr ⟨by simp [play, World.play, hu, hact], by simp [diary, Diary.play, hact]⟩
  | some sc =>
    refine .inl ⟨{ world := Function.update c.world u sc, visits := P.note (c.world u) c.visits e },
      by simp [play, World.play, hu, hact], ?_, fun v hv => ?_⟩
    · simp only [diary, Diary.play, hact, Option.map_some, Function.update_self, Program.note_filter hu, if_true]
    · simp only [diary, Function.update_of_ne hv, Program.note_filter hu, if_neg hv]

/-- Running events of all threads is running the events of each thread on its own. -/
theorem run_diaries {events : List Event} (hthreads : ∀ e ∈ events, ∃ u, e.thread? = some u) (c : Chronicle) :
    (∃ c', c.run P events = some c' ∧ ∀ u, (c.diary u).run P (events.filter (Event.isOf u)) = some (c'.diary u)) ∨
      (c.run P events = none ∧ ∃ u, (c.diary u).run P (events.filter (Event.isOf u)) = none) := by
  induction events generalizing c with
  | nil => exact .inl ⟨c, rfl, fun u => rfl⟩
  | cons e events ih =>
    obtain ⟨⟨u, hu⟩, hthreads⟩ := List.forall_mem_cons.mp hthreads
    have hself : Event.isOf u e = true := decide_eq_true hu
    obtain ⟨c₁, hplay, hdiary, hothers⟩ | ⟨hplay, hdiary⟩ := play_diary (P := P) (c := c) hu
    · -- One thread came to its next diary, and the others have theirs still to run.
      have hstep : ∀ v, (c.diary v).run P ((e :: events).filter (Event.isOf v)) =
          (c₁.diary v).run P (events.filter (Event.isOf v)) := by
        intro v
        by_cases hv : v = u
        · subst hv
          rw [List.filter_cons_of_pos hself, Diary.run, List.foldlM_cons, hdiary]
          rfl
        · have hother : ¬Event.isOf v e = true := by
            intro h
            have hv' := (of_decide_eq_true h).symm.trans hu
            exact hv (Option.some.inj hv')
          rw [List.filter_cons_of_neg hother, hothers v hv]
      have hrun : c.run P (e :: events) = c₁.run P events := by
        rw [run, List.foldlM_cons, hplay]
        rfl
      simp only [hrun, hstep]
      exact ih hthreads c₁
    · refine .inr ⟨?_, u, ?_⟩
      · rw [run, List.foldlM_cons, hplay]
        rfl
      · rw [List.filter_cons_of_pos hself, Diary.run, List.foldlM_cons, hdiary]
        rfl

/-- The visits change nothing about the world. -/
theorem run_world (events : List Event) (c : Chronicle) :
    (c.run P events).map Chronicle.world = c.world.run P events := by
  induction events generalizing c with
  | nil => rfl
  | cons e events ih =>
    rw [run, World.run, List.foldlM_cons, List.foldlM_cons, play]
    cases c.world.play P e with
    | none => rfl
    | some w => exact ih _

end Chronicle

/-! ## Replays -/

namespace Replay

variable {trace : Trace} {config : Config} {r r' : Replay} {c : Chronicle}

/-- An event that is no discard is booked as the chronicle notes it. -/
theorem play_books (h : Shows (trace.program config) r c.world) {n : Nat} (hbooks : Books r c.visits n)
    (hblocks : ∀ d ∈ trace.blocks, ∃ b, trace.toBlock d = .ok b) {i : Nat} {e : Event}
    (he : trace.checkEvent i e = .ok ()) {u : ThreadId} (hu : e.thread? = some u) (hplay : play trace r i e = .ok r') :
    ∃ c', c.play (trace.program config) e = some c' ∧ Shows (trace.program config) r' c'.world ∧
      Books r' c'.visits (n + e.isSignal.toNat) := by
  obtain ⟨r'', w', hplay', hw, hshows⟩ | ⟨⟨x, hplay'⟩, -⟩ := play_shows h hblocks he
  · cases hplay.symm.trans hplay'
    refine ⟨{ world := w', visits := (trace.program config).note (c.world u) c.visits e },
      by rw [Chronicle.play, hw, hu]; rfl, hshows, ?_⟩
    cases e with
    | block tid sp place exit =>
      obtain rfl := Option.some.inj hu
      obtain ⟨d, b, id, r₁, a, t, y, v, hb, hP⟩ := play_visited hblocks hplay
      have hvisit := hbooks.visit h v hb hP
      simp only [Program.note, hP, Option.elim_some]
      exact hvisit
    | signal tid signal =>
      obtain ⟨t, henter, rfl⟩ := play_signal_eq.mp hplay
      exact hbooks.signal h.inv henter
    | signalReturn tid signal =>
      obtain ⟨-, t, hexit, rfl⟩ := play_signalReturn_eq.mp hplay
      exact hbooks.signalReturn h hexit
    | discard => cases hu
  · rw [hplay] at hplay'
    cases hplay'

theorem playAll_books (hblocks : ∀ d ∈ trace.blocks, ∃ b, trace.toBlock d = .ok b) (events : List Event) (i : Nat)
    (hevents : ∀ p ∈ events.zipIdx i, trace.checkEvent p.2 p.1 = .ok ())
    (hthreads : ∀ e ∈ events, ∃ u, e.thread? = some u) (h : Shows (trace.program config) r c.world) {n : Nat}
    (hbooks : Books r c.visits n) (hrun : (events.zipIdx i).foldlM (fun r (e, i) => play trace r i e) r = .ok r') :
    ∃ c', c.run (trace.program config) events = some c' ∧ Shows (trace.program config) r' c'.world ∧
      Books r' c'.visits (n + events.countP Event.isSignal) := by
  induction events generalizing i r c n with
  | nil =>
    cases hrun
    exact ⟨c, rfl, h, hbooks⟩
  | cons e events ih =>
    rw [List.zipIdx_cons] at hevents hrun
    obtain ⟨he, hevents⟩ := List.forall_mem_cons.mp hevents
    obtain ⟨⟨u, hu⟩, hthreads⟩ := List.forall_mem_cons.mp hthreads
    rw [List.foldlM_cons] at hrun
    obtain ⟨r₁, hplay, hrun⟩ := bind_eq_ok.mp hrun
    obtain ⟨c₁, hc₁, h₁, hbooks₁⟩ := play_books h hbooks hblocks he hu hplay
    obtain ⟨c', hc', h', hbooks'⟩ := ih (i + 1) hevents hthreads h₁ hbooks₁ hrun
    refine ⟨c', ?_, h', ?_⟩
    · rw [Chronicle.run, List.foldlM_cons, hc₁]
      exact hc'
    · rw [countP_cons_toNat, Nat.add_comm (events.countP _), ← Nat.add_assoc]
      exact hbooks'

end Replay

/-- After some events that were no discards, all that a replay keeps tells of the visits so far. -/
theorem Trace.after_books {trace : Trace} {config : Config} {r : Replay} (hvalid : trace.check = .ok ())
    (hconfig : config.Usable) (hthreads : ∀ e ∈ trace.events, ∃ u, e.thread? = some u) {n : Nat}
    (hr : trace.after config n = .ok r) :
    ∃ c, Chronicle.run (trace.program config) {} (trace.events.take n) = some c ∧
      Replay.Shows (trace.program config) r c.world ∧
      Replay.Books r c.visits ((trace.events.take n).countP Event.isSignal) := by
  obtain ⟨r₀, hstart, h₀, hafter, hevents⟩ := after_played hvalid hconfig n
  rw [hafter] at hr
  obtain ⟨c, hc, h, hbooks⟩ := Replay.playAll_books (c := {}) (check_eq_ok hvalid).1 _ 0 hevents
    (fun e he => hthreads e (List.mem_of_mem_take he)) h₀ (Replay.start_books hstart) hr
  exact ⟨c, hc, h, by rw [← Nat.zero_add (List.countP ..)]; exact hbooks⟩

/-! ## Summaries -/

/-- What the ranking says of a context, but for the share that it has. -/
def Hotspot.outline (h : Hotspot) : String × Nat × Nat × Nat := (h.context, h.depth, h.blocks, h.executions)

/-- What the ranking says of a chain, by the visits. -/
def Program.outline (P : Program) (visits : List Visit) (chain : List FnId) : String × Nat × Nat × Nat :=
  (P.title chain, chain.length, distinct ((visits.filter (Visit.isIn chain)).map Visit.seat),
    visits.countP (Visit.isIn chain))

/-- A summary tells how many chains, sites and ways of calls there are among the visits, and how many of each kind
there were. -/
structure Summary.Tells (s : Summary) (P : Program) (visits : List Visit) (signals : Nat) : Prop where
  contexts : s.contexts = distinct (visits.map fun v => v.site.chain)
  anchors : s.anchors = distinct (visits.map Visit.seat)
  arcs : s.arcs = distinct (visits.filterMap Visit.arc)
  calls : s.calls = visits.countP fun v => v.source.isSome
  stats : Replay.StatsBooked s.stats visits signals
  returns : s.stats.returns = s.stats.calls
  hotspots : (s.hotspots.map Hotspot.outline).Perm ((visits.map fun v => v.site.chain).dedup.map (P.outline visits))

namespace Replay

variable {P : Program} {r : Replay} {w : World} {visits : List Visit} {n : Nat}

/-- There is one tally for every chain that was visited. -/
theorem Books.chains_perm (h : Books r visits n) (hshows : Shows P r w) :
    (r.hotspots.tallies.entries.map fun p => r.chainOf ⟨p.1⟩).Perm (visits.map fun v => v.site.chain).dedup := by
  have hchain : ∀ {c x}, r.tracker.contexts.get? c = some x → r.chainOf c = x.chain := by
    intro c x hx
    rw [chainOf, hx]
    rfl
  refine (List.perm_ext_iff_of_nodup ?_ (List.nodup_dedup _)).mpr fun chain => ?_
  · -- The tallies are sorted by context, and contexts are for different chains.
    rw [List.Nodup, List.pairwise_map]
    refine r.hotspots.tallies.sorted.imp_of_mem fun hp hq hlt hsame => ?_
    obtain ⟨x, hx⟩ := hshows.ranked _ hp
    obtain ⟨y, hy⟩ := hshows.ranked _ hq
    rw [hchain hx, hchain hy] at hsame
    have hnum := congrArg ContextId.num (h.chains.filed.distinct _ _ x y hx hy hsame)
    exact absurd hnum (Nat.ne_of_lt hlt)
  · rw [List.mem_dedup, ← h.chains.mem chain, List.mem_map]
    constructor
    · intro hp
      obtain ⟨p, hp, rfl⟩ := hp
      obtain ⟨x, hx⟩ := hshows.ranked p hp
      exact ⟨_, x, hx, (hchain hx).symm⟩
    · intro hx
      obtain ⟨c, x, hx, rfl⟩ := hx
      obtain ⟨t, ht, -⟩ := h.tallies.tallied c x hx
      exact ⟨_, SortedMap.mem_of_get? ht, hchain hx⟩

/-- What a replay without discards is summed up to. -/
theorem Books.close (h : Books r visits n) (hshows : Shows P r w) (trace : Trace) :
    ∃ s, r.close trace = .ok s ∧ s.Tells P visits n := by
  obtain ⟨s, hs, hcontexts, hanchors, harcs, hcalls, -, hstats, hhotspots⟩ := close_eq hshows trace
  refine ⟨s, hs, ⟨hcontexts.trans h.chains.size, hanchors.trans h.sites.size, harcs.trans h.arcs.arcCount,
    hcalls.trans h.arcs.totalCalls, ?_, ?_, ?_⟩⟩
  · rw [hstats]
    exact ⟨h.stats.blocksExecuted, h.stats.calls, h.stats.promotedCalls, h.stats.returnsAsJumps, h.stats.emulatedCalls,
      h.stats.lruHits, h.stats.signals⟩
  · rw [hstats]
    exact h.balanced.symm
  · -- Row by row: what is ranked under a number is the tally of its chain.
    have hrow : ∀ p ∈ r.hotspots.tallies.entries.mergeSort Hotspots.ranksBefore,
        (r.hotspots.row (P.title (r.chainOf ⟨p.1⟩)) (r.chainOf ⟨p.1⟩).length p.2).outline =
          P.outline visits (r.chainOf ⟨p.1⟩) := by
      intro p hp
      have hp := List.mem_mergeSort.mp hp
      obtain ⟨x, hx⟩ := hshows.ranked p hp
      obtain ⟨t, ht, htallied⟩ := h.tallies.tallied _ x hx
      cases (SortedMap.get?_of_mem hp).symm.trans ht
      rw [chainOf, hx, Program.outline, Hotspot.outline, Option.map_some, Option.getD_some, ← htallied.executions,
        ← htallied.blocks]
      rfl
    have hrows : s.hotspots.map Hotspot.outline = ((r.hotspots.tallies.entries.mergeSort Hotspots.ranksBefore).map
        fun p => r.chainOf ⟨p.1⟩).map (P.outline visits) := by
      rw [hhotspots, Hotspots.ranked, List.map_map, List.map_map, List.map_map]
      exact List.map_congr_left hrow
    rw [hrows]
    exact (((List.mergeSort_perm ..).map _).trans (h.chains_perm hshows)).map _

end Replay
end CallGraph
